import HiApp.Lib.Runs

/-!
# The category page

A selected category is queried from the server unless its list is in
`subcategoryListCache`, and every reply that carries a list is put on the page as it
comes.  For a category in the cache the page is given its own `subcategoryList`, which
it clears before it reads it.
-/

namespace HiApp.Category

open Runs

variable {σ : Type*}

/-- The argument of `onQuerySubcategoryListSuccess`: the list of a response, or the
field `subcategoryList` itself. -/
inductive ListRef (σ : Type*) where
  | subcategoryList
  | response (items : List σ)
  deriving DecidableEq, Repr

/-- What `bindContentView` was last called with: the number of items is fixed there,
the items are read from the list whenever one is bound. -/
structure Content (σ : Type*) where
  itemCount : ℕ
  data : ListRef σ
  deriving DecidableEq, Repr

/-- `selected` is the category of the last `onItemClick`, and `outstanding` has the
category of every query whose reply has not come. -/
structure State (σ : Type*) where
  isAlive : Bool := true
  subcategoryListCache : String → Option (List σ) := fun _ ↦ none
  subcategoryList : List σ := []
  content : Option (Content σ) := none
  selected : Option String := none
  outstanding : List String := []

/-- How a query ends. -/
inductive Reply where
  | onSuccess (successful hasData : Bool)
  | onFailed
  deriving DecidableEq, Repr

inductive Action where
  | onItemClick (position : ℕ)
  | reply (i : ℕ) (r : Reply)
  | detach
  deriving DecidableEq, Repr

def State.read (s : State σ) : ListRef σ → List σ
  | .subcategoryList => s.subcategoryList
  | .response items => items

/-- The items on the page. -/
def State.displayed (s : State σ) : List σ :=
  match s.content with
  | none => []
  | some c => (s.read c.data).take c.itemCount

/-- When `data` is `subcategoryList` it is empty after the first line. -/
def onQuerySubcategoryListSuccess (s : State σ) (data : ListRef σ) : State σ :=
  if s.isAlive = false then s
  else
    let s := { s with subcategoryList := [] }
    let s := { s with subcategoryList := s.subcategoryList ++ s.read data }
    { s with content := some { itemCount := (s.read data).length, data := data } }

def querySubcategoryList (s : State σ) (categoryId : String) : State σ :=
  { s with outstanding := s.outstanding ++ [categoryId] }

/-- The listener of the menu for one category. -/
def onItemClick (s : State σ) (categoryId : String) : State σ :=
  let s := { s with selected := some categoryId }
  if (s.subcategoryListCache categoryId).isSome then
    onQuerySubcategoryListSuccess s .subcategoryList
  else querySubcategoryList s categoryId

/-- `subcategoryListCache[categoryId] = data` unless the key is there. -/
def cacheSubcategoryList (s : State σ) (categoryId : String) (data : List σ) : State σ :=
  if (s.subcategoryListCache categoryId).isSome then s
  else
    { s with
      subcategoryListCache := Function.update s.subcategoryListCache categoryId (some data) }

/-- The list a reply brings, if it is `successful()` and its `data` is not null. -/
def Reply.data (r : Reply) (items : List σ) : Option (List σ) :=
  match r with
  | .onSuccess true true => some items
  | .onSuccess _ _ | .onFailed => none

/-- The callback of `querySubcategoryList`. -/
def onReply (s : State σ) (categoryId : String) : Option (List σ) → State σ
  | some data =>
      cacheSubcategoryList (onQuerySubcategoryListSuccess s (.response data)) categoryId data
  | none => s

/-- `categories` are the ids behind the menu, `server` the list the server has for a
category. -/
structure Page (σ : Type*) where
  categories : List String
  server : String → List σ

namespace Page

variable {p : Page σ} {s s' : State σ}

def step (p : Page σ) (s : State σ) : Action → Option (State σ)
  | .onItemClick position => (p.categories[position]?).map (onItemClick s)
  | .reply i r =>
      (s.outstanding[i]?).map fun categoryId ↦
        onReply { s with outstanding := s.outstanding.eraseIdx i } categoryId
          (r.data (p.server categoryId))
  | .detach => some { s with isAlive := false }

/-- Once no reply is outstanding, the page has the server's list of the selected
category. -/
def ShowsSelected (p : Page σ) (s : State σ) : Prop :=
  s.isAlive = true → s.outstanding = [] →
    ∀ categoryId, s.selected = some categoryId → s.displayed = p.server categoryId

/-- A category in the cache is selected only while a reply is outstanding, unless its
list is empty; and the last outstanding reply brings the list of the selected category,
or brings none when the page has that list already. -/
def Settles (p : Page σ) (s : State σ) : Action → Prop
  | .onItemClick position =>
      ∀ categoryId, p.categories[position]? = some categoryId →
        (s.subcategoryListCache categoryId).isSome → s.isAlive = true →
          s.outstanding ≠ [] ∨ p.server categoryId = []
  | .reply i r =>
      ∀ categoryId, s.outstanding[i]? = some categoryId → s.isAlive = true →
        s.outstanding.eraseIdx i = [] → ∀ current, s.selected = some current →
          (r.data (p.server categoryId)).getD s.displayed = p.server current
  | .detach => True

end Page

/-! ## What the page shows -/

@[simp] theorem onQuerySubcategoryListSuccess_isAlive (s : State σ) (data : ListRef σ) :
    (onQuerySubcategoryListSuccess s data).isAlive = s.isAlive := by
  unfold onQuerySubcategoryListSuccess
  split <;> rfl

@[simp] theorem onQuerySubcategoryListSuccess_outstanding (s : State σ) (data : ListRef σ) :
    (onQuerySubcategoryListSuccess s data).outstanding = s.outstanding := by
  unfold onQuerySubcategoryListSuccess
  split <;> rfl

@[simp] theorem onQuerySubcategoryListSuccess_selected (s : State σ) (data : ListRef σ) :
    (onQuerySubcategoryListSuccess s data).selected = s.selected := by
  unfold onQuerySubcategoryListSuccess
  split <;> rfl

@[simp] theorem onQuerySubcategoryListSuccess_subcategoryListCache (s : State σ)
    (data : ListRef σ) :
    (onQuerySubcategoryListSuccess s data).subcategoryListCache = s.subcategoryListCache := by
  unfold onQuerySubcategoryListSuccess
  split <;> rfl

/-- The list of a response is shown as it is. -/
theorem displayed_onQuerySubcategoryListSuccess_response {s : State σ}
    (halive : s.isAlive = true) (items : List σ) :
    (onQuerySubcategoryListSuccess s (.response items)).displayed = items := by
  simp [onQuerySubcategoryListSuccess, State.displayed, State.read, halive]

/-- The page's own list is empty by the time it is shown. -/
theorem displayed_onQuerySubcategoryListSuccess_subcategoryList {s : State σ}
    (halive : s.isAlive = true) :
    (onQuerySubcategoryListSuccess s .subcategoryList).displayed = [] := by
  simp [onQuerySubcategoryListSuccess, State.displayed, State.read, halive]

@[simp] theorem cacheSubcategoryList_isAlive (s : State σ) (c : String) (data : List σ) :
    (cacheSubcategoryList s c data).isAlive = s.isAlive := by
  unfold cacheSubcategoryList
  split <;> rfl

@[simp] theorem cacheSubcategoryList_outstanding (s : State σ) (c : String)
    (data : List σ) : (cacheSubcategoryList s c data).outstanding = s.outstanding := by
  unfold cacheSubcategoryList
  split <;> rfl

@[simp] theorem cacheSubcategoryList_selected (s : State σ) (c : String) (data : List σ) :
    (cacheSubcategoryList s c data).selected = s.selected := by
  unfold cacheSubcategoryList
  split <;> rfl

@[simp] theorem cacheSubcategoryList_displayed (s : State σ) (c : String) (data : List σ) :
    (cacheSubcategoryList s c data).displayed = s.displayed := by
  unfold cacheSubcategoryList
  split <;> rfl

@[simp] theorem onReply_isAlive (s : State σ) (c : String) (data : Option (List σ)) :
    (onReply s c data).isAlive = s.isAlive := by
  cases data <;> simp [onReply]

@[simp] theorem onReply_outstanding (s : State σ) (c : String) (data : Option (List σ)) :
    (onReply s c data).outstanding = s.outstanding := by
  cases data <;> simp [onReply]

@[simp] theorem onReply_selected (s : State σ) (c : String) (data : Option (List σ)) :
    (onReply s c data).selected = s.selected := by
  cases data <;> simp [onReply]

/-- A reply without a list leaves the page as it is. -/
theorem displayed_onReply {s : State σ} (halive : s.isAlive = true) (c : String)
    (data : Option (List σ)) : (onReply s c data).displayed = data.getD s.displayed := by
  cases data with
  | none => rfl
  | some items =>
      simp [onReply, displayed_onQuerySubcategoryListSuccess_response halive]

namespace Page

variable {p : Page σ} {s s' : State σ}

/-! ## Every step -/

theorem showsSelected_onItemClick_iff {c : String} :
    p.ShowsSelected (onItemClick s c) ↔
      ((s.subcategoryListCache c).isSome → s.isAlive = true →
        s.outstanding ≠ [] ∨ p.server c = []) := by
  by_cases hcached : (s.subcategoryListCache c).isSome
  · -- the page is shown its own list, and no query is made
    simp only [ShowsSelected, onItemClick, hcached, if_true,
      onQuerySubcategoryListSuccess_isAlive, onQuerySubcategoryListSuccess_outstanding,
      onQuerySubcategoryListSuccess_selected, Option.some.injEq, forall_eq', forall_const]
    refine forall_congr' fun halive ↦ ?_
    rw [displayed_onQuerySubcategoryListSuccess_subcategoryList, or_iff_not_imp_left, not_not]
    · exact imp_congr_right fun _ ↦ eq_comm
    · exact halive
  · simp [ShowsSelected, onItemClick, hcached, querySubcategoryList]

theorem showsSelected_reply_iff {i : ℕ} {c : String} {data : Option (List σ)} :
    p.ShowsSelected
        (onReply { s with outstanding := s.outstanding.eraseIdx i } c data) ↔
      (s.isAlive = true → s.outstanding.eraseIdx i = [] → ∀ current,
        s.selected = some current → data.getD s.displayed = p.server current) := by
  simp only [ShowsSelected, onReply_isAlive, onReply_outstanding, onReply_selected]
  refine forall_congr' fun halive ↦ ?_
  rw [displayed_onReply]
  · rfl
  · exact halive

/-- A step leads to a page that shows the selected category exactly when it meets the
condition. -/
theorem showsSelected_iff_settles {a : Action} (hstep : p.step s a = some s') :
    p.ShowsSelected s' ↔ p.Settles s a := by
  cases a with
  | onItemClick position =>
      obtain ⟨c, hc, rfl⟩ := Option.map_eq_some_iff.mp hstep
      simp only [showsSelected_onItemClick_iff, Settles, hc, Option.some.injEq, forall_eq']
  | reply i r =>
      obtain ⟨c, hc, rfl⟩ := Option.map_eq_some_iff.mp hstep
      simp only [showsSelected_reply_iff, Settles, hc, Option.some.injEq, forall_eq']
  | detach =>
      obtain rfl := Option.some.inj hstep
      simp [ShowsSelected, Settles]

/-! ## Whole runs -/

/-- What the cache has of a category is the server's list. -/
def CachesServer (p : Page σ) (s : State σ) : Prop :=
  ∀ c items, s.subcategoryListCache c = some items → items = p.server c

theorem cachesServer_onReply {c : String} {r : Reply} (h : p.CachesServer s) :
    p.CachesServer (onReply s c (r.data (p.server c))) := by
  cases hdata : r.data (p.server c) with
  | none => exact h
  | some items =>
      obtain rfl : p.server c = items := by
        cases r with
        | onFailed => cases hdata
        | onSuccess successful hasData =>
            cases successful <;> cases hasData <;> cases hdata
            rfl
      simp only [onReply, cacheSubcategoryList]
      split
      · simpa [CachesServer] using h
      · intro d new hnew
        by_cases hd : d = c
        · subst hd
          simpa [eq_comm] using hnew
        · exact h d new (by simpa [hd] using hnew)

theorem cachesServer_step {a : Action} (h : p.CachesServer s)
    (hstep : p.step s a = some s') : p.CachesServer s' := by
  cases a with
  | onItemClick position =>
      obtain ⟨c, hc, rfl⟩ := Option.map_eq_some_iff.mp hstep
      simp only [onItemClick]
      split
      · simpa [CachesServer] using h
      · exact h
  | reply i r =>
      obtain ⟨c, hc, rfl⟩ := Option.map_eq_some_iff.mp hstep
      exact cachesServer_onReply h
  | detach =>
      obtain rfl := Option.some.inj hstep
      exact h

/-- So the list that a selection of a cached category leaves unread is the right one. -/
theorem cachesServer_of_run {as : List Action} (hrun : run p.step {} as = some s) :
    p.CachesServer s := by
  refine run_invariant' (fun u a v hu hstep ↦ cachesServer_step hu hstep) ?_ hrun
  intro c items hc
  cases hc

/-- No category is selected twice or while a reply is outstanding, and every reply brings
its list. -/
def Patient (p : Page σ) (s : State σ) : Action → Prop
  | .onItemClick position =>
      s.outstanding = [] ∧
        ∀ c, p.categories[position]? = some c → s.subcategoryListCache c = none
  | .reply _ r => r = .onSuccess true true
  | .detach => True

/-- Only the reply for the selected category is outstanding. -/
def AwaitsSelected (s : State σ) : Prop := ∀ c ∈ s.outstanding, s.selected = some c

theorem awaitsSelected_step {a : Action} (h : AwaitsSelected s) (hpatient : p.Patient s a)
    (hstep : p.step s a = some s') : AwaitsSelected s' := by
  cases a with
  | onItemClick position =>
      obtain ⟨c, hc, rfl⟩ := Option.map_eq_some_iff.mp hstep
      have hcache : s.subcategoryListCache c = none := hpatient.2 c hc
      intro d hd
      have hdc : d = c := by
        simpa [onItemClick, querySubcategoryList, hcache, hpatient.1] using hd
      simp [onItemClick, querySubcategoryList, hcache, hdc]
  | reply i r =>
      obtain ⟨c, hc, rfl⟩ := Option.map_eq_some_iff.mp hstep
      intro d hd
      rw [onReply_outstanding] at hd
      rw [onReply_selected]
      exact h d (List.mem_of_mem_eraseIdx hd)
  | detach =>
      obtain rfl := Option.some.inj hstep
      exact h

theorem settles_of_patient {a : Action} (h : AwaitsSelected s) (hpatient : p.Patient s a) :
    p.Settles s a := by
  cases a with
  | onItemClick position =>
      intro c hc hcached
      rw [hpatient.2 c hc] at hcached
      cases hcached
  | reply i r =>
      obtain rfl : r = .onSuccess true true := hpatient
      intro c hc _ _ current hcurrent
      have hsel : s.selected = some c := h c (List.mem_of_getElem? hc)
      obtain rfl : current = c := Option.some.inj (hcurrent.symm.trans hsel)
      rfl
  | detach => trivial

theorem showsSelected_init (p : Page σ) : p.ShowsSelected {} := by
  intro _ _ c hc
  cases hc

/-- A user who waits for every list and never comes back to a category sees the selected
one. -/
theorem showsSelected_of_patient {as : List Action} (hpatient : StepsMeet p.step p.Patient {} as)
    (hrun : run p.step {} as = some s) : p.ShowsSelected s := by
  have hboth : AwaitsSelected s ∧ p.ShowsSelected s := by
    refine run_invariant (I := fun u ↦ AwaitsSelected u ∧ p.ShowsSelected u) ?_ ?_ hpatient hrun
    · rintro u a v ⟨hawaits, -⟩ hpatient hstep
      exact ⟨awaitsSelected_step hawaits hpatient hstep,
        (showsSelected_iff_settles hstep).mpr (settles_of_patient hawaits hpatient)⟩
    · exact ⟨fun c hc ↦ absurd hc List.not_mem_nil, p.showsSelected_init⟩
  exact hboth.2

/-- Along any interleaving of selections and replies, the page shows the selected
category whenever no reply is outstanding exactly when every step settles. -/
theorem page_shows_selected_iff (p : Page σ) (as : List Action) (s : State σ)
    (hrun : run p.step {} as = some s) :
    StatesMeet p.step p.ShowsSelected {} as ↔ StepsMeet p.step p.Settles {} as := by
  apply statesMeet_iff_stepsMeet (I := fun _ ↦ True) (D := fun _ _ ↦ True)
  · intro _ _ _ _ _ _ _ _
    trivial
  · intro u a v _ _ _ hstep
    exact showsSelected_iff_settles hstep
  · trivial
  · exact p.showsSelected_init
  · exact stepsMeet_true
  · exact hrun

/-- Two categories with one item each. -/
def twoCategories : Page String where
  categories := ["1", "2"]
  server c := if c = "1" then ["shoes"] else if c = "2" then ["hats"] else []

theorem page_shows_selected_iff_twoCategories :
    ∃ s, run twoCategories.step {} [.onItemClick 0, .reply 0 (.onSuccess true true),
        .onItemClick 1, .reply 0 .onFailed] = some s ∧
      (StatesMeet twoCategories.step twoCategories.ShowsSelected {}
          [.onItemClick 0, .reply 0 (.onSuccess true true), .onItemClick 1,
            .reply 0 .onFailed] ↔
        StepsMeet twoCategories.step twoCategories.Settles {}
          [.onItemClick 0, .reply 0 (.onSuccess true true), .onItemClick 1,
            .reply 0 .onFailed]) :=
  ⟨_, rfl, page_shows_selected_iff twoCategories _ _ rfl⟩

/-- Selecting a loaded category again empties the page; and of two replies that come in
the other order, the page keeps the one of the category selected first. -/
theorem page_misses_selected :
    (∃ s, run twoCategories.step {} [.onItemClick 0, .reply 0 (.onSuccess true true),
        .onItemClick 0] = some s ∧ ¬ twoCategories.ShowsSelected s) ∧
    ∃ s, run twoCategories.step {} [.onItemClick 0, .onItemClick 1,
        .reply 1 (.onSuccess true true), .reply 0 (.onSuccess true true)] = some s ∧
      ¬ twoCategories.ShowsSelected s := by
  constructor
  · refine ⟨_, rfl, fun h ↦ ?_⟩
    exact absurd (h rfl rfl "1" rfl) (by decide)
  · refine ⟨_, rfl, fun h ↦ ?_⟩
    exact absurd (h rfl rfl "2" rfl) (by decide)

end Page

end HiApp.Category
