import Mathlib.Data.List.Basic
import Mathlib.Data.List.Count
import Mathlib.Data.List.Pairwise
import Mathlib.Order.Basic
import Mathlib.Order.Nat

/-!
# Observable values

A `LiveData` holds the last value it was given and a version that counts them.
Every registration remembers the version it has seen; while it is active it is
called once for every newer one.  Versions start at zero here, where nothing has
been set.
-/

namespace HiApp.LiveData

variable {ω ο ν : Type*}

/-- How far the owner of a registration is in its life. -/
inductive Lifecycle where
  | inactive
  | active
  | destroyed
  deriving DecidableEq, Repr

/-- A registration; without an owner it stands until it is removed.  `serial` and
`since` record its number and the version at which it was made. -/
structure Wrapper (ω ο : Type*) where
  observer : ο
  owner : Option ω
  active : Bool
  lastVersion : ℕ := 0
  serial : ℕ
  since : ℕ
  deriving DecidableEq

/-- A call of an observer: the registration as it was before, and what it was
given. -/
structure Call (ω ο ν : Type*) where
  wrapper : Wrapper ω ο
  version : ℕ
  value : ν
  deriving DecidableEq

inductive Error where
  | differentLifecycles
  deriving DecidableEq, Repr
end HiApp.LiveData

/-- The value, its version and the registrations in their order. -/
structure HiApp.LiveData (ω ο ν : Type*) where
  version : ℕ := 0
  data : Option ν := none
  observers : List (HiApp.LiveData.Wrapper ω ο) := []
  registrations : ℕ := 0

namespace HiApp.LiveData

variable {ω ο ν : Type*}

section

variable (l : LiveData ω ο ν)

/-- The registration after it was told about a version, if it is `chosen`. -/
def Wrapper.tell (chosen : Wrapper ω ο → Bool) (version : ℕ) (w : Wrapper ω ο) :
    Wrapper ω ο :=
  if chosen w ∧ w.lastVersion < version then { w with lastVersion := version } else w

/-- `considerNotify` for the registrations that are `chosen`. -/
def notify (chosen : Wrapper ω ο → Bool) : LiveData ω ο ν × List (Call ω ο ν) :=
  match l.data with
  | none => (l, [])
  | some value =>
      ({ l with observers := l.observers.map (Wrapper.tell chosen l.version) },
        (l.observers.filter fun w ↦ chosen w ∧ w.lastVersion < l.version).map
          fun w ↦ ⟨w, l.version, value⟩)

def setValue (value : ν) : LiveData ω ο ν × List (Call ω ο ν) :=
  notify { l with version := l.version + 1, data := some value } Wrapper.active

def newWrapper (owner : Option ω) (active : Bool) (observer : ο) : Wrapper ω ο :=
  { observer, owner, active, serial := l.registrations, since := l.version }

/-- A new registration; if it is active, it is told the present value. -/
def register (owner : Option ω) (active : Bool) (observer : ο) :
    LiveData ω ο ν × List (Call ω ο ν) :=
  notify
    { l with
      observers := l.observers ++ [l.newWrapper owner active observer]
      registrations := l.registrations + 1 }
    fun w ↦ w.serial == l.registrations && w.active

variable [DecidableEq ω] [DecidableEq ο]

def find? (observer : ο) : Option (Wrapper ω ο) :=
  l.observers.find? fun w ↦ w.observer = observer

def observe (owner : ω) (state : Lifecycle) (observer : ο) :
    Except Error (LiveData ω ο ν × List (Call ω ο ν)) :=
  if state = .destroyed then .ok (l, [])
  else
    match l.find? observer with
    | some w => if w.owner = some owner then .ok (l, []) else .error .differentLifecycles
    | none => .ok (l.register (some owner) (state = .active) observer)

def observeForever (observer : ο) :
    Except Error (LiveData ω ο ν × List (Call ω ο ν)) :=
  match l.find? observer with
  | some w => if w.owner.isSome then .error .differentLifecycles else .ok (l, [])
  | none => .ok (l.register none true observer)

def removeObserver (observer : ο) : LiveData ω ο ν :=
  { l with observers := l.observers.filter fun w ↦ w.observer ≠ observer }

def setActive (owner : ω) (active : Bool) : LiveData ω ο ν :=
  { l with observers := l.observers.map fun w ↦
      if w.owner = some owner then { w with active := active } else w }

/-- What a change in the life of an owner does to its registrations.  Those that
become active are told a value they have not seen. -/
def onStateChanged (owner : ω) : Lifecycle → LiveData ω ο ν × List (Call ω ο ν)
  | .destroyed =>
      ({ l with observers := l.observers.filter fun w ↦ w.owner ≠ some owner }, [])
  | .inactive => (l.setActive owner false, [])
  | .active =>
      let r := l.notify fun w ↦ decide (w.owner = some owner) && !w.active
      (r.1.setActive owner true, r.2)

end

/-- Registrations have distinct numbers and no future in their records, and the
active ones are up to date. -/
structure Valid (l : LiveData ω ο ν) : Prop where
  data : l.data = none ↔ l.version = 0
  serial_lt : ∀ w ∈ l.observers, w.serial < l.registrations
  serial_inj : l.observers.Pairwise fun w w' ↦ w.serial ≠ w'.serial
  lastVersion_le : ∀ w ∈ l.observers, w.lastVersion ≤ l.version
  since_le : ∀ w ∈ l.observers, w.since ≤ l.version
  upToDate : ∀ w ∈ l.observers, w.active = true → w.lastVersion = l.version

theorem valid_new : Valid ({} : LiveData ω ο ν) := by
  constructor <;> simp

section

variable {l : LiveData ω ο ν} {chosen : Wrapper ω ο → Bool} {w : Wrapper ω ο}

theorem Wrapper.tell_cases (w : Wrapper ω ο) (chosen : Wrapper ω ο → Bool) (version : ℕ) :
    w.tell chosen version = { w with lastVersion := version } ∨ w.tell chosen version = w := by
  unfold Wrapper.tell
  split
  · exact .inl rfl
  · exact .inr rfl

@[simp] theorem Wrapper.tell_observer (version : ℕ) :
    (w.tell chosen version).observer = w.observer := by
  rcases w.tell_cases chosen version with h | h <;> rw [h]

@[simp] theorem Wrapper.tell_owner (version : ℕ) :
    (w.tell chosen version).owner = w.owner := by
  rcases w.tell_cases chosen version with h | h <;> rw [h]

@[simp] theorem Wrapper.tell_active (version : ℕ) :
    (w.tell chosen version).active = w.active := by
  rcases w.tell_cases chosen version with h | h <;> rw [h]

@[simp] theorem Wrapper.tell_serial (version : ℕ) :
    (w.tell chosen version).serial = w.serial := by
  rcases w.tell_cases chosen version with h | h <;> rw [h]

@[simp] theorem Wrapper.tell_since (version : ℕ) :
    (w.tell chosen version).since = w.since := by
  rcases w.tell_cases chosen version with h | h <;> rw [h]

theorem Wrapper.tell_lastVersion {version : ℕ} (hle : w.lastVersion ≤ version) :
    (w.tell chosen version).lastVersion = if chosen w then version else w.lastVersion := by
  unfold Wrapper.tell
  rcases Nat.lt_or_eq_of_le hle with hlt | heq
  · by_cases hchosen : chosen w = true
    · simp [hchosen, hlt]
    · simp [hchosen]
  · simp [heq]

theorem notify_of_none (hdata : l.data = none) : l.notify chosen = (l, []) := by
  simp only [notify, hdata]

theorem notify_of_some {value : ν} (hdata : l.data = some value) :
    l.notify chosen =
      ({ l with observers := l.observers.map (Wrapper.tell chosen l.version) },
        (l.observers.filter fun w ↦ chosen w ∧ w.lastVersion < l.version).map
          fun w ↦ ⟨w, l.version, value⟩) := by
  simp only [notify, hdata]

@[simp] theorem notify_version : (l.notify chosen).1.version = l.version := by
  cases hdata : l.data with
  | none => rw [notify_of_none hdata]
  | some value => rw [notify_of_some hdata]

@[simp] theorem notify_data : (l.notify chosen).1.data = l.data := by
  cases hdata : l.data with
  | none => rw [notify_of_none hdata, hdata]
  | some value => rw [notify_of_some hdata, hdata]

theorem notify_calls_of_data_eq_none (hdata : l.data = none) : (l.notify chosen).2 = [] := by
  rw [notify_of_none hdata]

@[simp] theorem notify_registrations :
    (l.notify chosen).1.registrations = l.registrations := by
  cases hdata : l.data with
  | none => rw [notify_of_none hdata]
  | some value => rw [notify_of_some hdata]

/-- With nothing set nobody is behind. -/
theorem notify_observers (hdata : l.data = none ↔ l.version = 0) :
    (l.notify chosen).1.observers = l.observers.map (Wrapper.tell chosen l.version) := by
  cases h : l.data with
  | some value => rw [notify_of_some h]
  | none =>
      rw [notify_of_none h]
      symm
      apply List.map_id''
      intro w
      simp [Wrapper.tell, hdata.mp h]

theorem mem_notify_iff {c : Call ω ο ν} :
    c ∈ (l.notify chosen).2 ↔
      c.wrapper ∈ l.observers ∧ chosen c.wrapper = true ∧
        c.wrapper.lastVersion < l.version ∧ c.version = l.version ∧
        l.data = some c.value := by
  cases hdata : l.data with
  | none => simp [notify_of_none hdata]
  | some value =>
      simp only [notify_of_some hdata, List.mem_map, List.mem_filter, decide_eq_true_eq,
        Option.some.injEq]
      constructor
      · rintro ⟨w, ⟨hw, hchosen, hlt⟩, rfl⟩
        exact ⟨hw, hchosen, hlt, rfl, rfl⟩
      · rintro ⟨hw, hchosen, hlt, hversion, rfl⟩
        exact ⟨c.wrapper, ⟨hw, hchosen, hlt⟩, by rw [← hversion]⟩

/-- A registration is told about a value once. -/
theorem count_notify_le_one (chosen : Wrapper ω ο → Bool)
    (hinj : l.observers.Pairwise fun w w' ↦ w.serial ≠ w'.serial) (n : ℕ) :
    (l.notify chosen).2.countP (fun c ↦ c.wrapper.serial = n) ≤ 1 := by
  cases hdata : l.data with
  | none => simp [notify_of_none hdata]
  | some value =>
      rw [notify_of_some hdata]
      have hsub := hinj.sublist
        (List.filter_sublist (p := fun w ↦ decide (chosen w ∧ w.lastVersion < l.version)))
      simp only [List.countP_map, Function.comp_def]
      generalize l.observers.filter _ = ws at hsub ⊢
      induction ws with
      | nil => simp
      | cons w ws ih =>
          obtain ⟨hne, htail⟩ := List.pairwise_cons.mp hsub
          by_cases hw : w.serial = n
          · have hzero : ws.countP (fun w ↦ decide (w.serial = n)) = 0 := by
              rw [List.countP_eq_zero]
              intro w' hw'
              simpa using fun h ↦ hne w' hw' (hw.trans h.symm)
            simp [hw, hzero]
          · simpa [hw] using ih htail

end

section

variable {l : LiveData ω ο ν}

theorem Valid.mem_setValue_iff (h : l.Valid) {value : ν} {c : Call ω ο ν} :
    c ∈ (l.setValue value).2 ↔
      c.wrapper ∈ l.observers ∧ c.wrapper.active = true ∧
        c.version = l.version + 1 ∧ c.value = value := by
  unfold setValue
  rw [mem_notify_iff]
  simp only [Option.some.injEq]
  constructor
  · rintro ⟨hw, hactive, -, hversion, hvalue⟩
    exact ⟨hw, hactive, hversion, hvalue.symm⟩
  · rintro ⟨hw, hactive, hversion, hvalue⟩
    exact ⟨hw, hactive, Nat.lt_succ_of_le (h.lastVersion_le _ hw), hversion, hvalue.symm⟩

theorem setValue_observers (l : LiveData ω ο ν) (value : ν) :
    (l.setValue value).1.observers =
      l.observers.map (Wrapper.tell Wrapper.active (l.version + 1)) := rfl

@[simp] theorem setValue_version (l : LiveData ω ο ν) (value : ν) :
    (l.setValue value).1.version = l.version + 1 := rfl

@[simp] theorem setValue_registrations (l : LiveData ω ο ν) (value : ν) :
    (l.setValue value).1.registrations = l.registrations := rfl

theorem Valid.setValue (h : l.Valid) (value : ν) : (l.setValue value).1.Valid := by
  have htold : ∀ w ∈ l.observers,
      (w.tell Wrapper.active (l.version + 1)).lastVersion =
        if w.active then l.version + 1 else w.lastVersion := by
    intro w hw
    exact Wrapper.tell_lastVersion ((h.lastVersion_le w hw).trans (Nat.le_succ _))
  constructor
  · simp [LiveData.setValue]
  · simpa [setValue_observers] using h.serial_lt
  · simpa [setValue_observers, List.pairwise_map] using h.serial_inj
  · simp only [setValue_observers, List.forall_mem_map, setValue_version]
    intro w hw
    rw [htold w hw]
    have hle := h.lastVersion_le w hw
    split <;> omega
  · simp only [setValue_observers, List.forall_mem_map, setValue_version,
      Wrapper.tell_since]
    intro w hw
    exact (h.since_le w hw).trans (Nat.le_succ _)
  · simp only [setValue_observers, List.forall_mem_map, setValue_version,
      Wrapper.tell_active]
    intro w hw hactive
    rw [htold w hw, if_pos hactive]

theorem Valid.eq_of_serial_eq (h : l.Valid) {w w' : Wrapper ω ο} (hw : w ∈ l.observers)
    (hw' : w' ∈ l.observers) (hserial : w.serial = w'.serial) : w = w' := by
  have : Std.Symm fun w w' : Wrapper ω ο ↦ w.serial ≠ w'.serial := ⟨fun _ _ ↦ Ne.symm⟩
  by_contra hne
  exact h.serial_inj.forall hw hw' hne hserial

/-- Fewer registrations are as good. -/
theorem Valid.sublist (h : l.Valid) {observers : List (Wrapper ω ο)}
    (hsub : observers.Sublist l.observers) : Valid { l with observers } where
  data := h.data
  serial_lt w hw := h.serial_lt w (hsub.subset hw)
  serial_inj := h.serial_inj.sublist hsub
  lastVersion_le w hw := h.lastVersion_le w (hsub.subset hw)
  since_le w hw := h.since_le w (hsub.subset hw)
  upToDate w hw := h.upToDate w (hsub.subset hw)

section Register

variable {owner : Option ω} {active : Bool} {observer : ο}

@[simp] theorem register_version :
    (l.register owner active observer).1.version = l.version := notify_version

@[simp] theorem register_data :
    (l.register owner active observer).1.data = l.data := notify_data

@[simp] theorem register_registrations :
    (l.register owner active observer).1.registrations = l.registrations + 1 :=
  notify_registrations

/-- The others are not told anything. -/
theorem Valid.register_observers (h : l.Valid) :
    (l.register owner active observer).1.observers = l.observers ++
      [{ l.newWrapper owner active observer with
          lastVersion := if active then l.version else 0 }] := by
  unfold register
  rw [notify_observers (by exact h.data), List.map_append, List.map_singleton]
  congr 1
  · conv_rhs => rw [← List.map_id l.observers]
    apply List.map_congr_left
    intro w hw
    have hne : w.serial ≠ l.registrations := (h.serial_lt w hw).ne
    simp [Wrapper.tell, hne]
  · cases active with
    | false => simp [Wrapper.tell, newWrapper]
    | true =>
        rcases Nat.eq_zero_or_pos l.version with hzero | hpos
        · simp [Wrapper.tell, newWrapper, hzero]
        · simp [Wrapper.tell, newWrapper, hpos]

/-- Only the new registration is told, if it is active and there is a value. -/
theorem Valid.register_calls (h : l.Valid) :
    (l.register owner active observer).2 =
      if active then l.data.toList.map fun value ↦
        ⟨l.newWrapper owner active observer, l.version, value⟩
      else [] := by
  have hold : (l.observers.filter fun w ↦
      (w.serial == l.registrations && w.active) = true ∧ w.lastVersion < l.version) = [] := by
    rw [List.filter_eq_nil_iff]
    intro w hw
    simp [(h.serial_lt w hw).ne]
  unfold register notify
  cases hdata : l.data with
  | none => simp
  | some value =>
      have hpos : 0 < l.version := by
        rw [Nat.pos_iff_ne_zero, ne_eq, ← h.data, hdata]
        simp
      simp only [List.filter_append, hold, List.nil_append]
      cases active with
      | false => simp [newWrapper]
      | true => simp [newWrapper, hpos]

theorem Valid.register_calls_eq_nil_iff (h : l.Valid) :
    (l.register owner active observer).2 = [] ↔ (0 < l.version → active = false) := by
  have hpos : 0 < l.version ↔ l.data ≠ none := by
    rw [Nat.pos_iff_ne_zero, ne_eq, ne_eq, h.data]
  rw [h.register_calls, hpos]
  cases active <;> cases l.data <;> simp

theorem Valid.register (h : l.Valid) : (l.register owner active observer).1.Valid := by
  have hall : ∀ {P : Wrapper ω ο → Prop}, (∀ w ∈ l.observers, P w) →
      P { l.newWrapper owner active observer with
          lastVersion := if active then l.version else 0 } →
      ∀ w ∈ (l.register owner active observer).1.observers, P w := by
    intro P hold hnew
    rw [h.register_observers, List.forall_mem_append]
    exact ⟨hold, by simpa using hnew⟩
  constructor
  · simpa using h.data
  · refine hall (fun w hw ↦ ?_) (by simp [newWrapper])
    rw [register_registrations]
    exact (h.serial_lt w hw).trans (Nat.lt_succ_self _)
  · rw [h.register_observers, List.pairwise_append]
    refine ⟨h.serial_inj, List.pairwise_singleton _ _, ?_⟩
    simp only [List.mem_singleton, forall_eq]
    exact fun w hw ↦ (h.serial_lt w hw).ne
  · refine hall (by simpa using h.lastVersion_le) ?_
    cases active <;> simp
  · exact hall (by simpa using h.since_le) (by simp [newWrapper])
  · refine hall (by simpa using h.upToDate) ?_
    intro hactive
    simp_all [newWrapper]

end Register

section Owners

variable [DecidableEq ω] {owner : ω} {w : Wrapper ω ο}

theorem mem_onStateChanged_active_iff {c : Call ω ο ν} :
    c ∈ (l.onStateChanged owner .active).2 ↔
      c.wrapper ∈ l.observers ∧ (c.wrapper.owner = some owner ∧ c.wrapper.active = false) ∧
        c.wrapper.lastVersion < l.version ∧ c.version = l.version ∧
        l.data = some c.value := by
  simp only [onStateChanged, mem_notify_iff, Bool.and_eq_true, decide_eq_true_eq,
    Bool.not_eq_true']

theorem Valid.onStateChanged (h : l.Valid) (state : Lifecycle) :
    (l.onStateChanged owner state).1.Valid := by
  cases state with
  | destroyed => exact h.sublist List.filter_sublist
  | inactive =>
      constructor <;>
        simp only [LiveData.onStateChanged, setActive, List.forall_mem_map, List.pairwise_map]
      · exact h.data
      · intro w hw
        split <;> exact h.serial_lt w hw
      · refine h.serial_inj.imp fun {w w'} hne ↦ ?_
        split <;> split <;> exact hne
      · intro w hw
        split <;> exact h.lastVersion_le w hw
      · intro w hw
        split <;> exact h.since_le w hw
      · intro w hw
        split
        · simp
        · exact h.upToDate w hw
  | active =>
      constructor <;>
        simp only [LiveData.onStateChanged, setActive, notify_observers h.data,
          notify_registrations, notify_version, notify_data, List.forall_mem_map,
          List.pairwise_map, Wrapper.tell_owner]
      · exact h.data
      · intro w hw
        split <;> simpa using h.serial_lt w hw
      · refine h.serial_inj.imp fun {w w'} hne ↦ ?_
        split <;> split <;> simpa using hne
      · intro w hw
        have hle := h.lastVersion_le w hw
        split <;> simp only [Wrapper.tell_lastVersion hle] <;> split <;> omega
      · intro w hw
        split <;> simpa using h.since_le w hw
      · intro w hw
        have hle := h.lastVersion_le w hw
        split
        · rename_i howner
          intro _
          cases hactive : w.active with
          | false => simp [Wrapper.tell_lastVersion hle, howner, hactive]
          | true => simp [Wrapper.tell_lastVersion hle, hactive, h.upToDate w hw hactive]
        · rename_i howner
          intro hactive
          rw [Wrapper.tell_active] at hactive
          simp [Wrapper.tell_lastVersion hle, howner, h.upToDate w hw hactive]

variable [DecidableEq ο] {state : Lifecycle} {observer : ο}

omit [DecidableEq ω] in
theorem find?_eq_none_iff :
    l.find? observer = none ↔ ∀ w ∈ l.observers, w.observer ≠ observer := by
  simp [find?]

/-- An observer that is registered already is not registered again. -/
theorem observe_of_find? (owner : ω) (state : Lifecycle)
    (hfind : l.find? observer = some w) :
    l.observe owner state observer = .ok (l, []) ∨
      l.observe owner state observer = .error .differentLifecycles := by
  simp only [observe, hfind]
  split
  · exact .inl rfl
  · split
    · exact .inl rfl
    · exact .inr rfl

theorem observe_of_find?_eq_none (hstate : state ≠ .destroyed)
    (hfind : l.find? observer = none) :
    l.observe owner state observer =
      .ok (l.register (some owner) (state = .active) observer) := by
  simp only [observe, hfind, if_neg hstate]

end Owners

end

/-! ## Who observes -/

/-- Every registration is one of the observers that are meant. -/
def ObservedBy (P : ο → Prop) (l : LiveData ω ο ν) : Prop :=
  ∀ w ∈ l.observers, P w.observer

namespace ObservedBy

variable {P : ο → Prop} {l : LiveData ω ο ν}

theorem calls (h : l.ObservedBy P) {chosen : Wrapper ω ο → Bool} :
    ∀ c ∈ (l.notify chosen).2, P c.wrapper.observer :=
  fun c hc ↦ h c.wrapper (mem_notify_iff.mp hc).1

theorem notify (h : l.ObservedBy P) {chosen : Wrapper ω ο → Bool} :
    (l.notify chosen).1.ObservedBy P := by
  cases hdata : l.data with
  | none => rwa [notify_of_none hdata]
  | some value =>
      rw [notify_of_some hdata]
      intro w hw
      obtain ⟨w₀, hw₀, rfl⟩ := List.mem_map.mp hw
      rw [Wrapper.tell_observer]
      exact h w₀ hw₀

theorem concat (h : l.ObservedBy P) {w : Wrapper ω ο} (hw : P w.observer) (registrations : ℕ) :
    ObservedBy P { l with
      observers := l.observers ++ [w]
      registrations := registrations } := by
  intro w' hw'
  obtain hold | hnew := List.mem_append.mp hw'
  · exact h w' hold
  · obtain rfl := List.mem_singleton.mp hnew
    exact hw

theorem setActive [DecidableEq ω] (h : l.ObservedBy P) (owner : ω) (active : Bool) :
    (l.setActive owner active).ObservedBy P := by
  intro w hw
  obtain ⟨w₀, hw₀, rfl⟩ := List.mem_map.mp hw
  split <;> exact h w₀ hw₀

end ObservedBy

end HiApp.LiveData
