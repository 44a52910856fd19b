import HiApp.Lib.Runs

/-!
# The city selector

The dialog keeps what was chosen in the `Province` objects of its data set: choosing a
province only changes which of them is the current one, choosing a city or a district
writes into it.  The pages are the provinces, the cities of the current province and the
districts of its city, as many of them as there are tabs.
-/

namespace HiApp.CitySelector

open Runs

variable {ρ κ δ : Type*}

def TYPE_PROVINCE : String := "1"

def TYPE_CITY : String := "2"

def TYPE_DISTRICT : String := "3"

/-! `ρ`, `κ` and `δ` are the references to `Province`, `City` and plain `District`
objects; one object is in a list when its reference is. -/

/-- A `District` of any class, as the pages hand it out. -/
inductive Item (ρ κ δ : Type*) where
  | province (r : ρ)
  | city (c : κ)
  | district (d : δ)
  deriving DecidableEq

structure District where
  districtName : Option String := none
  id : Option String := none
  type : Option String := none
  deriving DecidableEq

structure City (δ : Type*) extends District where
  districts : List δ := []

structure Province (ρ κ δ : Type*) extends District where
  cities : List κ := []
  selectCity : Option κ := none
  selectDistrict : Option (Item ρ κ δ) := none

/-- `TextUtils.isEmpty`. -/
def isEmpty (str : Option String) : Bool := str.getD "" = ""

/-- What the dialog reads and never changes. -/
structure Dialog (ρ κ δ : Type*) where
  dataSets : List ρ
  city : κ → City δ
  district : δ → District
  pleasePickStr : String

/-- `provinces` are the `Province` objects as they are now, `topTabs` the titles of the
tabs, and `told` the province `onCitySelect` was called with.  `picked` records that the
current province is somebody's choice and not the empty one the dialog begins with. -/
structure State (ρ κ δ : Type*) where
  provinces : ρ → Province ρ κ δ
  province : ρ
  picked : Bool
  topTabs : List (Option String) := []
  dismissed : Bool := false
  told : Option ρ := none

inductive Error where
  | classCast
  deriving DecidableEq

inductive Action where
  | select (position index : ℕ)
  | close
  deriving DecidableEq

namespace State

def current (s : State ρ κ δ) : Province ρ κ δ := s.provinces s.province

/-- `province = r`, which stays as it was left. -/
def setProvince (s : State ρ κ δ) (r : ρ) : State ρ κ δ :=
  { s with province := r, picked := true }

/-- `onCitySelect(province)` and `dismiss()`. -/
def finish (s : State ρ κ δ) : State ρ κ δ :=
  { s with told := some s.province, dismissed := true }

variable [DecidableEq ρ]

/-- `province.selectCity = c`, in place. -/
def setSelectCity (s : State ρ κ δ) (c : κ) : State ρ κ δ :=
  { s with
    provinces := Function.update s.provinces s.province
      { s.current with selectCity := some c } }

/-- `province.selectDistrict = x`, in place. -/
def setSelectDistrict (s : State ρ κ δ) (x : Item ρ κ δ) : State ρ κ δ :=
  { s with
    provinces := Function.update s.provinces s.province
      { s.current with selectDistrict := some x } }

end State

namespace Dialog

/-- The fields an object has as a `District`. -/
def fields (m : Dialog ρ κ δ) (s : State ρ κ δ) : Item ρ κ δ → District
  | .province r => (s.provinces r).toDistrict
  | .city c => (m.city c).toDistrict
  | .district d => m.district d

def provinceTab (x : Province ρ κ δ) : List (Option String) :=
  if isEmpty x.id then [] else [x.districtName]

def cityTab (m : Dialog ρ κ δ) (x : Province ρ κ δ) : List (Option String) :=
  x.selectCity.toList.map fun c ↦ (m.city c).districtName

def districtTab (m : Dialog ρ κ δ) (s : State ρ κ δ) : List (Option String) :=
  s.current.selectDistrict.toList.map fun d ↦ (m.fields s d).districtName

/-- The tabs `refreshTabLayoutCount` builds; `addPleasePickTab` is false once there is a
district. -/
def newTabs (m : Dialog ρ κ δ) (s : State ρ κ δ) : List (Option String) :=
  provinceTab s.current ++ m.cityTab s.current ++ m.districtTab s ++
    if s.current.selectDistrict.isSome then [] else [some m.pleasePickStr]

def refreshTabLayoutCount (m : Dialog ρ κ δ) (s : State ρ κ δ) : State ρ κ δ :=
  { s with topTabs := m.newTabs s }

/-- `onViewCreated` with the province of the arguments, or a new one. -/
def onViewCreated (m : Dialog ρ κ δ) (provinces : ρ → Province ρ κ δ) (province : ρ) :
    State ρ κ δ :=
  m.refreshTabLayoutCount
    { provinces := provinces, province := province, picked := !isEmpty (provinces province).id }

/-- The list of a page; the one of the districts needs a city. -/
def items (m : Dialog ρ κ δ) (s : State ρ κ δ) : ℕ → Option (List (Item ρ κ δ))
  | 0 => some (m.dataSets.map .province)
  | 1 => some (s.current.cities.map .city)
  | 2 => s.current.selectCity.map fun c ↦ (m.city c).districts.map .district
  | _ => none

/-- The object behind an entry of a page. -/
def offered (m : Dialog ρ κ δ) (s : State ρ κ δ) (position index : ℕ) :
    Option (Item ρ κ δ) :=
  (m.items s position).bind fun list ↦ list[index]?

section Callback

variable [DecidableEq ρ]

/-- The `when` of the item click callback.  It looks at the `type`, and the casts fail
for an object whose class is another. -/
def record (m : Dialog ρ κ δ) (s : State ρ κ δ) (x : Item ρ κ δ) :
    Except Error (State ρ κ δ) :=
  if (m.fields s x).type = some TYPE_PROVINCE then
    match x with
    | .province r => .ok (s.setProvince r)
    | .city _ | .district _ => .error .classCast
  else if (m.fields s x).type = some TYPE_CITY then
    match x with
    | .city c => .ok (s.setSelectCity c)
    | .province _ | .district _ => .error .classCast
  else if (m.fields s x).type = some TYPE_DISTRICT then .ok (s.setSelectDistrict x)
  else .ok s

def itemClickCallback (m : Dialog ρ κ δ) (s : State ρ κ δ) (x : Item ρ κ δ) :
    Except Error (State ρ κ δ) :=
  (m.record s x).map fun t ↦
    if (m.fields s x).type = some TYPE_DISTRICT then t.finish
    else m.refreshTabLayoutCount t

/-- There are as many pages as tabs.  A callback that throws leads nowhere. -/
def step (m : Dialog ρ κ δ) (s : State ρ κ δ) : Action → Option (State ρ κ δ)
  | .select position index =>
      if s.dismissed = false ∧ position < s.topTabs.length then
        (m.offered s position index).bind fun x ↦ (m.itemClickCallback s x).toOption
      else none
  | .close => if s.dismissed = false then some { s with dismissed := true } else none

end Callback

variable {m : Dialog ρ κ δ} {s s' : State ρ κ δ}

@[simp] theorem current_refreshTabLayoutCount :
    (m.refreshTabLayoutCount s).current = s.current := rfl

@[simp] theorem current_setProvince (r : ρ) : (s.setProvince r).current = s.provinces r := rfl

@[simp] theorem current_finish : s.finish.current = s.current := rfl

@[simp] theorem picked_refreshTabLayoutCount :
    (m.refreshTabLayoutCount s).picked = s.picked := rfl

/-! ## Pages and tabs -/

/-- What the pages offer: the provinces of the data set, the cities of the current
province, the districts of the current city. -/
theorem offered_cases {position index : ℕ} {x : Item ρ κ δ}
    (h : m.offered s position index = some x) :
    (position = 0 ∧ ∃ r ∈ m.dataSets, x = .province r) ∨
    (position = 1 ∧ ∃ c ∈ s.current.cities, x = .city c) ∨
    (position = 2 ∧ ∃ c, s.current.selectCity = some c ∧
      x ∈ (m.city c).districts.map .district) := by
  obtain ⟨list, hlist, hx⟩ := Option.bind_eq_some_iff.mp h
  have hmem : x ∈ list := List.mem_of_getElem? hx
  match position with
  | 0 =>
      obtain rfl := Option.some.inj hlist
      obtain ⟨r, hr, rfl⟩ := List.mem_map.mp hmem
      exact .inl ⟨rfl, r, hr, rfl⟩
  | 1 =>
      obtain rfl := Option.some.inj hlist
      obtain ⟨c, hc, rfl⟩ := List.mem_map.mp hmem
      exact .inr (.inl ⟨rfl, c, hc, rfl⟩)
  | 2 =>
      obtain ⟨c, hc, rfl⟩ := Option.map_eq_some_iff.mp hlist
      exact .inr (.inr ⟨rfl, c, hc, hmem⟩)
  | _ + 3 => cases hlist

theorem offered_city {position index : ℕ} {c : κ}
    (h : m.offered s position index = some (.city c)) :
    position = 1 ∧ c ∈ s.current.cities := by
  rcases offered_cases h with ⟨-, r, -, hx⟩ | ⟨hposition, c', hc', hx⟩ | ⟨-, c', -, hx⟩
  · cases hx
  · cases hx
    exact ⟨hposition, hc'⟩
  · simp at hx

/-- There are at most three tabs, and three only with a city. -/
theorem length_newTabs :
    (m.newTabs s).length =
      (if isEmpty s.current.id then 0 else 1) + s.current.selectCity.toList.length + 1 := by
  cases hid : isEmpty s.current.id <;> cases hd : s.current.selectDistrict <;>
    simp [newTabs, provinceTab, cityTab, districtTab, hid, hd, Nat.add_comm]

/-- So a page that exists has a list: no page of districts is made without a city. -/
theorem items_isSome {position : ℕ} (hlt : position < (m.newTabs s).length) :
    (m.items s position).isSome := by
  rw [length_newTabs] at hlt
  match position with
  | 0 => rfl
  | 1 => rfl
  | 2 =>
      cases hc : s.current.selectCity with
      | none =>
          rw [hc] at hlt
          split at hlt <;> simp at hlt
      | some c => simp [items, hc]
  | position + 3 =>
      have hcity : s.current.selectCity.toList.length ≤ 1 := by
        cases s.current.selectCity <;> simp
      split at hlt <;> omega

/-! ## What a step can do -/

variable [DecidableEq ρ]

@[simp] theorem current_setSelectCity (c : κ) :
    (s.setSelectCity c).current = { s.current with selectCity := some c } := by
  simp [State.setSelectCity, State.current]

@[simp] theorem picked_setSelectCity (c : κ) : (s.setSelectCity c).picked = s.picked := rfl

@[simp] theorem current_setSelectDistrict (x : Item ρ κ δ) :
    (s.setSelectDistrict x).current = { s.current with selectDistrict := some x } := by
  simp [State.setSelectDistrict, State.current]

theorem record_cases {x : Item ρ κ δ} {t : State ρ κ δ} (h : m.record s x = .ok t) :
    (∃ r, x = .province r ∧ (m.fields s x).type = some TYPE_PROVINCE ∧
      t = s.setProvince r) ∨
    (∃ c, x = .city c ∧ (m.fields s x).type = some TYPE_CITY ∧ t = s.setSelectCity c) ∨
    ((m.fields s x).type = some TYPE_DISTRICT ∧ t = s.setSelectDistrict x) ∨
    ((m.fields s x).type ∉ [some TYPE_PROVINCE, some TYPE_CITY, some TYPE_DISTRICT] ∧
      t = s) := by
  unfold record at h
  split at h
  · rename_i hprovince
    cases x with
    | province r => exact .inl ⟨r, rfl, hprovince, (Except.ok.inj h).symm⟩
    | city c => cases h
    | district d => cases h
  · split at h
    · rename_i hcity
      cases x with
      | province r => cases h
      | city c => exact .inr (.inl ⟨c, rfl, hcity, (Except.ok.inj h).symm⟩)
      | district d => cases h
    · split at h
      · rename_i hdistrict
        exact .inr (.inr (.inl ⟨hdistrict, (Except.ok.inj h).symm⟩))
      · rename_i hprovince hcity hdistrict
        exact .inr (.inr (.inr ⟨by simp [hprovince, hcity, hdistrict],
          (Except.ok.inj h).symm⟩))

/-- What the callback does, by the label of the object. -/
theorem itemClickCallback_cases {x : Item ρ κ δ} (h : m.itemClickCallback s x = .ok s') :
    (∃ r, x = .province r ∧ (m.fields s x).type = some TYPE_PROVINCE ∧
      s' = m.refreshTabLayoutCount (s.setProvince r)) ∨
    (∃ c, x = .city c ∧ (m.fields s x).type = some TYPE_CITY ∧
      s' = m.refreshTabLayoutCount (s.setSelectCity c)) ∨
    ((m.fields s x).type = some TYPE_DISTRICT ∧
      s' = (s.setSelectDistrict x).finish) ∨
    ((m.fields s x).type ∉ [some TYPE_PROVINCE, some TYPE_CITY, some TYPE_DISTRICT] ∧
      s' = m.refreshTabLayoutCount s) := by
  unfold itemClickCallback at h
  cases hrecord : m.record s x with
  | error e =>
      rw [hrecord] at h
      cases h
  | ok t =>
      rw [hrecord] at h
      have hs' : s' = if (m.fields s x).type = some TYPE_DISTRICT then t.finish
          else m.refreshTabLayoutCount t := (Except.ok.inj h).symm
      rcases record_cases hrecord with ⟨r, hx, htype, rfl⟩ | ⟨c, hx, htype, rfl⟩ |
        ⟨htype, rfl⟩ | ⟨htype, rfl⟩
      · rw [htype, if_neg (by decide : some TYPE_PROVINCE ≠ some TYPE_DISTRICT)] at hs'
        exact .inl ⟨r, hx, htype, hs'⟩
      · rw [htype, if_neg (by decide : some TYPE_CITY ≠ some TYPE_DISTRICT)] at hs'
        exact .inr (.inl ⟨c, hx, htype, hs'⟩)
      · rw [if_pos htype] at hs'
        exact .inr (.inr (.inl ⟨htype, hs'⟩))
      · have hdistrict : (m.fields t x).type ≠ some TYPE_DISTRICT := by
          intro heq
          exact htype (by simp [heq])
        rw [if_neg hdistrict] at hs'
        exact .inr (.inr (.inr ⟨htype, hs'⟩))

theorem step_cases {a : Action} (h : m.step s a = some s') :
    s.dismissed = false ∧
      ((∃ position index x, a = .select position index ∧ position < s.topTabs.length ∧
        m.offered s position index = some x ∧ m.itemClickCallback s x = .ok s') ∨
      (a = .close ∧ s' = { s with dismissed := true })) := by
  cases a with
  | select position index =>
      simp only [step] at h
      split at h
      · rename_i hopen
        obtain ⟨x, hx, hcallback⟩ := Option.bind_eq_some_iff.mp h
        refine ⟨hopen.1, .inl ⟨position, index, x, rfl, hopen.2, hx, ?_⟩⟩
        cases hresult : m.itemClickCallback s x with
        | error e =>
            rw [hresult] at hcallback
            cases hcallback
        | ok t =>
            rw [hresult] at hcallback
            rw [Option.some.inj hcallback]
      · cases h
  | close =>
      simp only [step] at h
      split at h
      · rename_i hopen
        exact ⟨hopen, .inr ⟨rfl, (Option.some.inj h).symm⟩⟩
      · cases h

/-- Every step that leaves the dialog open builds the tabs anew. -/
theorem tabs_step {a : Action} (hstep : m.step s a = some s') (hopen : s'.dismissed = false) :
    s'.topTabs = m.newTabs s' := by
  obtain ⟨-, ⟨position, index, x, rfl, -, -, hcallback⟩ | ⟨rfl, rfl⟩⟩ := step_cases hstep
  · rcases itemClickCallback_cases hcallback with ⟨r, -, -, rfl⟩ | ⟨c, -, -, rfl⟩ |
      ⟨-, rfl⟩ | ⟨-, rfl⟩
    · rfl
    · rfl
    · cases hopen
    · rfl
  · cases hopen

/-- Whatever was chosen, every page of an open dialog has a list. -/
theorem items_isSome_of_run {provinces : ρ → Province ρ κ δ} {province : ρ}
    {as : List Action} (hrun : run m.step (m.onViewCreated provinces province) as = some s)
    (hopen : s.dismissed = false) {position : ℕ} (hlt : position < s.topTabs.length) :
    (m.items s position).isSome := by
  have htabs : s.dismissed = false → s.topTabs = m.newTabs s :=
    run_invariant' (I := fun u ↦ u.dismissed = false → u.topTabs = m.newTabs u)
      (fun u a v _ hstep ↦ tabs_step hstep) (fun _ ↦ rfl) hrun
  rw [htabs hopen] at hlt
  exact items_isSome hlt

end Dialog

end HiApp.CitySelector
