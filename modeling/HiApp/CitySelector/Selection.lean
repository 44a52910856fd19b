import HiApp.CitySelector.CitySelectorDialogFragment

/-!
# A consistent choice

Nothing is taken back when an upper level is chosen anew.  A province keeps its city and
its district for the next time it is chosen, and a district stays when another city of
its province is chosen.  Only the second breaks the order of the levels.
-/

namespace HiApp.CitySelector.Dialog

open Runs

variable {ρ κ δ : Type*}

/-! ## What a selection should be -/

/-- The city is one of the province and the district one of the city. -/
structure Nested (m : Dialog ρ κ δ) (x : Province ρ κ δ) : Prop where
  city : ∀ c, x.selectCity = some c → c ∈ x.cities
  district : ∀ d, x.selectDistrict = some d →
    ∃ c, x.selectCity = some c ∧ d ∈ (m.city c).districts.map .district

/-- A tab for every level that is chosen, and one more while a level is missing. -/
def chosenTabs (m : Dialog ρ κ δ) (s : State ρ κ δ) : List (Option String) :=
  (if s.picked then [s.current.districtName] else []) ++ m.cityTab s.current ++
    m.districtTab s ++
    if s.picked ∧ s.current.selectCity.isSome ∧ s.current.selectDistrict.isSome then []
    else [some m.pleasePickStr]

/-- The selection is nested and the tabs of an open dialog show it. -/
structure Sound (m : Dialog ρ κ δ) (s : State ρ κ δ) : Prop where
  nested : m.Nested s.current
  tabs : s.dismissed = false → s.topTabs = m.chosenTabs s

/-- A province is chosen only if it has an id and what it keeps from earlier choices is
nested; a city only if the district there is one of its own; and what is labelled a
district is one of the current city. -/
def Fits (m : Dialog ρ κ δ) (s : State ρ κ δ) : Action → Prop
  | .select position index => ∀ x, m.offered s position index = some x →
      ((m.fields s x).type = some TYPE_PROVINCE → ∀ r, x = .province r →
        m.Nested (s.provinces r) ∧ isEmpty (s.provinces r).id = false) ∧
      ((m.fields s x).type = some TYPE_CITY → ∀ c, x = .city c →
        ∀ d, s.current.selectDistrict = some d → d ∈ (m.city c).districts.map .district) ∧
      ((m.fields s x).type = some TYPE_DISTRICT →
        ∃ c, s.current.selectCity = some c ∧ x ∈ (m.city c).districts.map .district)
  | .close => True

variable {m : Dialog ρ κ δ} {s s' : State ρ κ δ}

/-- A province without an id and without a choice has the one tab that asks for it. -/
theorem newTabs_of_bare (hid : isEmpty s.current.id = true)
    (hcity : s.current.selectCity = none) (hdistrict : s.current.selectDistrict = none) :
    m.newTabs s = [some m.pleasePickStr] := by
  simp [newTabs, provinceTab, cityTab, districtTab, hid, hcity, hdistrict]

/-- A province that was picked has its tab exactly when it has an id. -/
theorem newTabs_eq_chosenTabs_iff (hpicked : s.picked = true) (h : m.Nested s.current) :
    m.newTabs s = m.chosenTabs s ↔ isEmpty s.current.id = false := by
  cases hd : s.current.selectDistrict with
  | none =>
      cases hid : isEmpty s.current.id with
      | true => simp [newTabs, chosenTabs, provinceTab, districtTab, hpicked, hd, hid]
      | false => simp [newTabs, chosenTabs, provinceTab, districtTab, hpicked, hd, hid]
  | some d =>
      obtain ⟨c, hc, -⟩ := h.district d hd
      cases hid : isEmpty s.current.id with
      | true => simp [newTabs, chosenTabs, provinceTab, cityTab, districtTab, hpicked, hc, hd, hid]
      | false => simp [newTabs, chosenTabs, provinceTab, cityTab, districtTab, hpicked, hc, hd, hid]

/-! ## An open dialog -/

/-- What holds in an open dialog as long as its states are sound. -/
structure Open (m : Dialog ρ κ δ) (s : State ρ κ δ) : Prop where
  tabs : s.topTabs = m.newTabs s
  picked : s.picked = !isEmpty s.current.id
  bare : isEmpty s.current.id = true →
    s.current.selectCity = none ∧ s.current.selectDistrict = none

/-- The page of the cities is there only when the province has an id. -/
theorem Open.id_of_lt (h : m.Open s) (hlt : 1 < s.topTabs.length) :
    isEmpty s.current.id = false := by
  cases hid : isEmpty s.current.id with
  | false => rfl
  | true =>
      obtain ⟨hcity, hdistrict⟩ := h.bare hid
      rw [h.tabs, newTabs_of_bare hid hcity hdistrict] at hlt
      exact absurd hlt (by simp)

theorem sound_province_iff {r : ρ} (hopen : s.dismissed = false) :
    m.Sound (m.refreshTabLayoutCount (s.setProvince r)) ↔
      m.Nested (s.provinces r) ∧ isEmpty (s.provinces r).id = false := by
  constructor
  · intro h
    have htabs := h.tabs hopen
    exact ⟨h.nested, (newTabs_eq_chosenTabs_iff rfl h.nested).mp htabs⟩
  · rintro ⟨hnested, hid⟩
    exact ⟨hnested, fun _ ↦ (newTabs_eq_chosenTabs_iff rfl hnested).mpr hid⟩

theorem nested_selectCity_iff {x : Province ρ κ δ} {c : κ} (hc : c ∈ x.cities) :
    m.Nested { x with selectCity := some c } ↔
      ∀ d, x.selectDistrict = some d → d ∈ (m.city c).districts.map .district := by
  constructor
  · intro h d hd
    obtain ⟨c', hc', hmem⟩ := h.district d hd
    obtain rfl := Option.some.inj hc'
    exact hmem
  · intro h
    refine ⟨fun c' hc' ↦ ?_, fun d hd ↦ ⟨c, rfl, h d hd⟩⟩
    obtain rfl := Option.some.inj hc'
    exact hc

/-! ## Every step -/

variable [DecidableEq ρ]

theorem sound_city_iff {c : κ} (h : m.Open s) (hlt : 1 < s.topTabs.length)
    (hc : c ∈ s.current.cities) :
    m.Sound (m.refreshTabLayoutCount (s.setSelectCity c)) ↔
      ∀ d, s.current.selectDistrict = some d → d ∈ (m.city c).districts.map .district := by
  have hid : isEmpty s.current.id = false := h.id_of_lt hlt
  have hpicked : (s.setSelectCity c).picked = true := by
    simp [h.picked, hid]
  rw [← nested_selectCity_iff hc, ← current_setSelectCity]
  constructor
  · intro hsound
    exact hsound.nested
  · intro hnested
    refine ⟨hnested, fun _ ↦ ?_⟩
    exact (newTabs_eq_chosenTabs_iff hpicked hnested).mpr (by simpa using hid)

theorem sound_district_iff {x : Item ρ κ δ} (h : m.Nested s.current) :
    m.Sound (s.setSelectDistrict x).finish ↔
      ∃ c, s.current.selectCity = some c ∧ x ∈ (m.city c).districts.map .district := by
  have hcurrent : (s.setSelectDistrict x).finish.current =
      { s.current with selectDistrict := some x } := by simp
  constructor
  · intro hsound
    have hnested := hsound.nested
    rw [hcurrent] at hnested
    exact hnested.district x rfl
  · intro hx
    refine ⟨?_, fun hopen ↦ by cases hopen⟩
    rw [hcurrent]
    refine ⟨h.city, fun d hd ↦ ?_⟩
    obtain rfl := Option.some.inj hd
    exact hx

/-- A step of an open dialog keeps it sound exactly when the choice fits. -/
theorem sound_iff_fits {a : Action} (hsound : m.Sound s) (h : s.dismissed = false → m.Open s)
    (hstep : m.step s a = some s') : m.Sound s' ↔ m.Fits s a := by
  obtain ⟨hopen, ⟨position, index, x, rfl, hlt, hx, hcallback⟩ | ⟨rfl, rfl⟩⟩ :=
    step_cases hstep
  · simp only [Fits, hx, Option.some.injEq, forall_eq']
    rcases itemClickCallback_cases hcallback with ⟨r, rfl, htype, rfl⟩ |
      ⟨c, rfl, htype, rfl⟩ | ⟨htype, rfl⟩ | ⟨htype, rfl⟩
    · rw [sound_province_iff hopen]
      simp [htype, TYPE_PROVINCE, TYPE_CITY, TYPE_DISTRICT]
    · obtain ⟨rfl, hc⟩ := offered_city hx
      rw [sound_city_iff (h hopen) hlt hc]
      simp [htype, TYPE_PROVINCE, TYPE_CITY, TYPE_DISTRICT]
    · rw [sound_district_iff hsound.nested]
      simp [htype, TYPE_PROVINCE, TYPE_CITY, TYPE_DISTRICT]
    · refine iff_of_true ⟨hsound.nested, fun _ ↦ ?_⟩ ?_
      · exact (h hopen).tabs.symm.trans (hsound.tabs hopen)
      · simp only [List.mem_cons, List.not_mem_nil, or_false, not_or] at htype
        simp [htype]
  · exact iff_of_true ⟨hsound.nested, fun hopen ↦ by cases hopen⟩ trivial

theorem open_step {a : Action} (hsound : m.Sound s') (h : s.dismissed = false → m.Open s)
    (hstep : m.step s a = some s') (hopen' : s'.dismissed = false) : m.Open s' := by
  obtain ⟨hopen, ⟨position, index, x, rfl, hlt, hx, hcallback⟩ | ⟨rfl, rfl⟩⟩ :=
    step_cases hstep
  · rcases itemClickCallback_cases hcallback with ⟨r, rfl, htype, rfl⟩ |
      ⟨c, rfl, htype, rfl⟩ | ⟨htype, rfl⟩ | ⟨htype, rfl⟩
    · have hid : isEmpty (s.provinces r).id = false := ((sound_province_iff hopen).mp hsound).2
      refine ⟨rfl, ?_, fun hempty ↦ absurd hempty (by simp [hid])⟩
      simp [State.setProvince, State.current, refreshTabLayoutCount, hid]
    · obtain ⟨rfl, -⟩ := offered_city hx
      have hid : isEmpty s.current.id = false := (h hopen).id_of_lt hlt
      refine ⟨rfl, ?_, fun hempty ↦ absurd hempty (by simp [hid])⟩
      simpa using (h hopen).picked
    · cases hopen'
    · exact ⟨rfl, (h hopen).picked, (h hopen).bare⟩
  · cases hopen'

/-! ## Whole runs -/

/-- A nested selection, with a city only in a province that has an id. -/
structure Consistent (m : Dialog ρ κ δ) (x : Province ρ κ δ) : Prop where
  nested : m.Nested x
  top : isEmpty x.id = true → x.selectCity = none

omit [DecidableEq ρ] in
theorem open_onViewCreated {provinces : ρ → Province ρ κ δ} {province : ρ}
    (h : m.Consistent (provinces province)) : m.Open (m.onViewCreated provinces province) := by
  refine ⟨rfl, rfl, fun hid ↦ ?_⟩
  have hcity : (provinces province).selectCity = none := h.top hid
  refine ⟨hcity, Option.eq_none_iff_forall_ne_some.mpr fun d hd ↦ ?_⟩
  obtain ⟨c, hc, -⟩ := h.nested.district d hd
  rw [hcity] at hc
  cases hc

omit [DecidableEq ρ] in
theorem sound_onViewCreated {provinces : ρ → Province ρ κ δ} {province : ρ}
    (h : m.Consistent (provinces province)) : m.Sound (m.onViewCreated provinces province) := by
  have hopen := open_onViewCreated h
  refine ⟨h.nested, fun _ ↦ ?_⟩
  rw [hopen.tabs]
  cases hid : isEmpty (m.onViewCreated provinces province).current.id with
  | false =>
      exact (newTabs_eq_chosenTabs_iff (by rw [hopen.picked, hid]; rfl) h.nested).mpr hid
  | true =>
      obtain ⟨hcity, hdistrict⟩ := hopen.bare hid
      rw [newTabs_of_bare hid hcity hdistrict]
      simp [chosenTabs, cityTab, districtTab, hopen.picked, hid, hcity, hdistrict]

/-- Objects are labelled by their class, and the provinces of the data set have ids and
nested selections. -/
structure Labelled (m : Dialog ρ κ δ) (provinces : ρ → Province ρ κ δ) : Prop where
  province : ∀ r ∈ m.dataSets, (provinces r).type = some TYPE_PROVINCE
  id : ∀ r ∈ m.dataSets, isEmpty (provinces r).id = false
  nested : ∀ r ∈ m.dataSets, m.Nested (provinces r)
  city : ∀ c, (m.city c).type = some TYPE_CITY
  district : ∀ d, (m.district d).type = some TYPE_DISTRICT

/-- A city is chosen only if the district that is chosen is one of its own. -/
def OwnDistrict (m : Dialog ρ κ δ) (s : State ρ κ δ) : Action → Prop
  | .select position index => ∀ c, m.offered s position index = some (.city c) →
      ∀ d, s.current.selectDistrict = some d → d ∈ (m.city c).districts.map .district
  | .close => True

omit [DecidableEq ρ] in
theorem fits_of_labelled {a : Action} (h : m.Labelled s.provinces) (hown : m.OwnDistrict s a) :
    m.Fits s a := by
  cases a with
  | close => trivial
  | select position index =>
      intro x hx
      rcases offered_cases hx with ⟨-, r, hr, rfl⟩ | ⟨-, c, -, rfl⟩ | ⟨-, c, hc, hmem⟩
      · have htype : (m.fields s (.province r)).type = some TYPE_PROVINCE := h.province r hr
        refine ⟨?_, by simp [htype, TYPE_PROVINCE, TYPE_CITY],
          by simp [htype, TYPE_PROVINCE, TYPE_DISTRICT]⟩
        rintro - r' hr'
        cases hr'
        exact ⟨h.nested r hr, h.id r hr⟩
      · have htype : (m.fields s (.city c)).type = some TYPE_CITY := h.city c
        refine ⟨by simp [htype, TYPE_PROVINCE, TYPE_CITY], ?_,
          by simp [htype, TYPE_CITY, TYPE_DISTRICT]⟩
        rintro - c' hc'
        cases hc'
        exact hown c hx
      · obtain ⟨d, hd, rfl⟩ := List.mem_map.mp hmem
        have htype : (m.fields s (.district d)).type = some TYPE_DISTRICT := h.district d
        refine ⟨by simp [htype, TYPE_PROVINCE, TYPE_DISTRICT],
          by simp [htype, TYPE_CITY, TYPE_DISTRICT], fun _ ↦ ⟨c, hc, hmem⟩⟩

/-- A step writes at most into the current province, and there only the selection. -/
theorem provinces_step {a : Action} (hstep : m.step s a = some s') (r : ρ) :
    s'.provinces r = s.provinces r ∨
      (r = s'.province ∧ (s'.provinces r).toDistrict = (s.provinces r).toDistrict) := by
  obtain ⟨-, ⟨position, index, x, rfl, -, -, hcallback⟩ | ⟨rfl, rfl⟩⟩ := step_cases hstep
  · rcases itemClickCallback_cases hcallback with ⟨r', -, -, rfl⟩ | ⟨c, -, -, rfl⟩ |
      ⟨-, rfl⟩ | ⟨-, rfl⟩
    · exact .inl rfl
    · by_cases hr : r = s.province
      · subst hr
        exact .inr ⟨rfl, by
          simp [refreshTabLayoutCount, State.setSelectCity, State.current]⟩
      · exact .inl (by simp [refreshTabLayoutCount, State.setSelectCity, hr])
    · by_cases hr : r = s.province
      · subst hr
        exact .inr ⟨rfl, by simp [State.finish, State.setSelectDistrict, State.current]⟩
      · exact .inl (by simp [State.finish, State.setSelectDistrict, hr])
    · exact .inl rfl
  · exact .inl rfl

theorem labelled_step {a : Action} (h : m.Labelled s.provinces) (hsound : m.Sound s')
    (hstep : m.step s a = some s') : m.Labelled s'.provinces := by
  have hdistrict : ∀ r, (s'.provinces r).toDistrict = (s.provinces r).toDistrict := by
    intro r
    rcases provinces_step hstep r with heq | ⟨-, heq⟩
    · rw [heq]
    · exact heq
  refine ⟨fun r hr ↦ ?_, fun r hr ↦ ?_, fun r hr ↦ ?_, h.city, h.district⟩
  · rw [hdistrict r]
    exact h.province r hr
  · rw [hdistrict r]
    exact h.id r hr
  · rcases provinces_step hstep r with heq | ⟨rfl, -⟩
    · rw [heq]
      exact h.nested r hr
    · exact hsound.nested

/-- With labelled data the cities decide. -/
theorem sound_of_ownDistrict {provinces : ρ → Province ρ κ δ} {province : ρ}
    {as : List Action} (hlabelled : m.Labelled provinces)
    (h : m.Consistent (provinces province))
    (hown : StepsMeet m.step m.OwnDistrict (m.onViewCreated provinces province) as)
    (hrun : run m.step (m.onViewCreated provinces province) as = some s) : m.Sound s := by
  have hall : m.Labelled s.provinces ∧ m.Sound s ∧ (s.dismissed = false → m.Open s) := by
    refine run_invariant (I := fun u ↦ m.Labelled u.provinces ∧ m.Sound u ∧
      (u.dismissed = false → m.Open u)) ?_ ?_ hown hrun
    · rintro u a v ⟨hlabelled, hsound, hopen⟩ hown hstep
      have hsound' : m.Sound v :=
        (sound_iff_fits hsound hopen hstep).mpr (fits_of_labelled hlabelled hown)
      exact ⟨labelled_step hlabelled hsound' hstep, hsound', open_step hsound' hopen hstep⟩
    · exact ⟨hlabelled, sound_onViewCreated h, fun _ ↦ open_onViewCreated h⟩
  exact hall.2.1

/-- From a consistent province, every state of a run is sound exactly when every choice
of the run fits. -/
theorem selection_sound_iff (m : Dialog ρ κ δ) (provinces : ρ → Province ρ κ δ) (province : ρ)
    (h : m.Consistent (provinces province)) (as : List Action) (s : State ρ κ δ)
    (hrun : run m.step (m.onViewCreated provinces province) as = some s) :
    StatesMeet m.step m.Sound (m.onViewCreated provinces province) as ↔
      StepsMeet m.step m.Fits (m.onViewCreated provinces province) as := by
  apply statesMeet_iff_stepsMeet (I := fun u ↦ u.dismissed = false → m.Open u)
    (D := fun _ _ ↦ True)
  · intro u a v hu _ hsound _ hstep hopen
    exact open_step hsound hu hstep hopen
  · intro u a v hu hsound _ hstep
    exact sound_iff_fits hsound hu hstep
  · intro _
    exact open_onViewCreated h
  · exact sound_onViewCreated h
  · exact stepsMeet_true
  · exact hrun

/-- One province with two cities of one district each; the first city and its district
were chosen before. -/
def twoCities : Dialog Unit Bool Bool where
  dataSets := [()]
  city c :=
    { districtName := some "city", id := some "c", type := some TYPE_CITY, districts := [c] }
  district _ := { districtName := some "district", id := some "d", type := some TYPE_DISTRICT }
  pleasePickStr := "pick"

def chosenBefore : Unit → Province Unit Bool Bool := fun _ ↦
  { districtName := some "province", id := some "p", type := some TYPE_PROVINCE
    cities := [false, true]
    selectCity := some false
    selectDistrict := some (.district false) }

theorem consistent_chosenBefore : twoCities.Consistent (chosenBefore ()) := by
  refine ⟨⟨?_, ?_⟩, by decide⟩
  · intro c hc
    cases hc
    decide
  · intro d hd
    cases hd
    exact ⟨false, rfl, by decide⟩

theorem selection_sound_iff_twoCities :
    twoCities.Consistent (chosenBefore ()) ∧
    ∃ s, run twoCities.step (twoCities.onViewCreated chosenBefore ()) [.select 1 1] = some s ∧
      (StatesMeet twoCities.step twoCities.Sound (twoCities.onViewCreated chosenBefore ())
          [.select 1 1] ↔
        StepsMeet twoCities.step twoCities.Fits (twoCities.onViewCreated chosenBefore ())
          [.select 1 1]) :=
  ⟨consistent_chosenBefore, _, rfl,
    selection_sound_iff twoCities chosenBefore () consistent_chosenBefore _ _ rfl⟩

/-- Choosing the other city keeps the district of the first one, and with three tabs
nothing asks for another. -/
theorem selection_keeps_district :
    twoCities.Consistent (chosenBefore ()) ∧
    ∃ s, run twoCities.step (twoCities.onViewCreated chosenBefore ()) [.select 1 1] = some s ∧
      ¬ twoCities.Sound s := by
  refine ⟨consistent_chosenBefore, _, rfl, fun h ↦ ?_⟩
  obtain ⟨c, hc, hmem⟩ := h.nested.district (.district false) rfl
  cases hc
  exact absurd hmem (by decide)

end HiApp.CitySelector.Dialog
