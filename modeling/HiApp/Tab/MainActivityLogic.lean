import HiApp.Tab.HiFragmentTabView
import HiApp.Tab.TabLayout

/-!
# The main page and its recreation

The tabs at the bottom select fragments.  The system may destroy the activity and make it anew
later: the fragments come back with their tags and with what was hidden, the layout, the tab
view and its adapter are new, and the index of the selected tab is taken from the saved state.
-/

namespace HiApp.Tab

open Runs FragmentManager TabLayout

/-- What `SAVED_CURRENT_ID` is kept for, and the fragments that the manager has saved. -/
structure SavedState where
  currentItemIndex : ℤ
  fragments : Container Fragment

/-- An info is the number of its tab. -/
structure MainActivityLogic where
  hiTabBottomLayout : HiTabBottomLayout ℕ
  fragmentTabView : HiFragmentTabView
  currentItemIndex : ℤ

structure HiMainActivity where
  activityLogic : MainActivityLogic
  saved : Option SavedState := none

namespace MainActivityLogic

/-- The home page, the favourites, the categories, the recommendations and the profile. -/
def infoList : List ℕ := List.range 5

/-- Each of the five classes of fragments can be instantiated. -/
def fragmentClasses : List HiTabBottomInfo := infoList.map fun _ ↦ ⟨true⟩

def onTabSelectedChange (index : ℤ) (s : MainActivityLogic) : Option MainActivityLogic :=
  (s.fragmentTabView.setCurrentItem index).map fun fragmentTabView ↦
    { s with fragmentTabView, currentItemIndex := index }

/-- The listeners of the layout are its tabs and the logic. -/
def onSelected (nextInfo : ℕ) (s : MainActivityLogic) : Option MainActivityLogic :=
  (s.onTabSelectedChange (Layout.indexOf s.hiTabBottomLayout.infoList nextInfo)).map fun s ↦
    { s with hiTabBottomLayout := s.hiTabBottomLayout.onSelected nextInfo }

/-- The layout as it is inflated, with the tab view as its first child. -/
def emptyLayout : HiTabBottomLayout ℕ := ⟨⟨[.content], Layout.head?_content⟩, [], [], none, []⟩

def initFragmentTabView (fragments : Container Fragment) (created : ℕ) : HiFragmentTabView :=
  HiFragmentTabView.setAdapter
    { manager := { executed := { container := fragments } }, created }
    (some { mInfoList := fragmentClasses })

/-- Throws where the index is not that of an info. -/
def initTabBottom (fragments : Container Fragment) (created : ℕ) (currentItemIndex : ℤ) :
    Option MainActivityLogic :=
  if 0 ≤ currentItemIndex then
    infoList[currentItemIndex.toNat]?.bind fun info ↦
      onSelected info
        { hiTabBottomLayout :=
            (emptyLayout.inflateInfo bottomViews infoList).addTabSelectedChangeListener
          fragmentTabView := initFragmentTabView fragments created
          currentItemIndex }
  else none

/-- `created` is the number of fragments that were ever made. -/
def create (savedInstanceState : Option SavedState) (created : ℕ) : Option MainActivityLogic :=
  initTabBottom (savedInstanceState.elim {} SavedState.fragments) created
    (savedInstanceState.elim 0 SavedState.currentItemIndex)

/-- All that is queued is carried out at once. -/
def execPendingActions (s : MainActivityLogic) : MainActivityLogic :=
  { s with
    fragmentTabView := { s.fragmentTabView with
      manager := { executed := s.fragmentTabView.manager.settled } } }

def onClick (id : ℕ) (s : MainActivityLogic) : Option MainActivityLogic :=
  s.hiTabBottomLayout.tabs[id]?.bind fun tab ↦ s.onSelected tab.tabInfo

end MainActivityLogic

namespace HiMainActivity

inductive Action where
  | onClick (id : ℕ)
  | execPendingActions
  | onSaveInstanceState
  | recreate
  deriving DecidableEq

/-- The manager carries out what is queued before it saves its fragments. -/
def onSaveInstanceState (s : HiMainActivity) : HiMainActivity :=
  let activityLogic := s.activityLogic.execPendingActions
  { activityLogic
    saved := some
      { currentItemIndex := activityLogic.currentItemIndex
        fragments := activityLogic.fragmentTabView.manager.executed.container } }

/-- The activity is made anew from what was saved last. -/
def recreate (s : HiMainActivity) : Option HiMainActivity :=
  s.saved.bind fun saved ↦
    (MainActivityLogic.create (some saved) s.activityLogic.fragmentTabView.created).map
      fun activityLogic ↦ { s with activityLogic }

/-- A click is on a tab that is shown. -/
def step (s : HiMainActivity) : Action → Option HiMainActivity
  | .onClick id =>
      if id ∈ bottomViews.tabs s.activityLogic.hiTabBottomLayout.views then
        (s.activityLogic.onClick id).map fun activityLogic ↦ { s with activityLogic }
      else none
  | .execPendingActions => some { s with activityLogic := s.activityLogic.execPendingActions }
  | .onSaveInstanceState => some s.onSaveInstanceState
  | .recreate => s.recreate

def onCreate : Option HiMainActivity :=
  (MainActivityLogic.create none 0).map fun activityLogic ↦ { activityLogic }

end HiMainActivity

namespace MainActivityLogic

/-- The tab that is drawn as selected, the index that will be saved, the position of the tab view
and the fragment that is to be seen in the end are those of one tab. -/
structure ShowsOne (s : MainActivityLogic) : Prop where
  layout : s.hiTabBottomLayout.ShowsSelected bottomViews
  selected : ∃ info ∈ infoList, s.hiTabBottomLayout.selectedInfo = some info ∧
    s.currentItemIndex = info ∧ s.fragmentTabView.currentPosition = info ∧
      ∃ f, (f.position = info ∧ (s.fragmentTabView.mAdapter.bind (·.mCurFragment)) = some f) ∧
        ∀ g, s.fragmentTabView.container.Visible g ↔ g = f

end MainActivityLogic

/-! ### What is found by a tag -/

namespace HiTabViewAdapter

variable {c : Container Fragment} {position : ℕ}

theorem findFragmentByTag_exec {op : Op Fragment}
    (h : ∀ f, op = .add f → f.position ≠ position) :
    findFragmentByTag (c.exec op) position = findFragmentByTag c position := by
  rcases op with f | f | f
  · rfl
  · rw [findFragmentByTag, Container.exec]
    split
    · rfl
    · rw [List.reverse_append, List.reverse_singleton, List.singleton_append,
        List.find?_cons_of_neg (by simpa using h f rfl)]
      rfl
  · rfl

theorem findFragmentByTag_execAll {ops : List (Op Fragment)}
    (h : ∀ f, .add f ∈ ops → f.position ≠ position) :
    findFragmentByTag (c.execAll ops) position = findFragmentByTag c position := by
  induction ops generalizing c with
  | nil => rfl
  | cons op ops ih =>
      have hrest : findFragmentByTag ((c.exec op).execAll ops) position =
          findFragmentByTag (c.exec op) position :=
        ih fun f hf ↦ h f (List.mem_cons_of_mem op hf)
      refine hrest.trans (findFragmentByTag_exec fun f hf ↦ h f ?_)
      exact hf ▸ List.mem_cons_self

/-- What is found stays so when no fragment of the position is queued. -/
theorem findFragmentByTag_settled {m : Manager Fragment Unit}
    (hcommits : ∀ p ∈ m.pending, p.IsCommit)
    (h : ∀ p ∈ m.pending, ∀ f ∈ p.adds, f.position ≠ position) :
    findFragmentByTag m.settled.container position =
      findFragmentByTag m.executed.container position := by
  obtain ⟨executed, pending⟩ := m
  unfold Manager.settled
  induction pending generalizing executed with
  | nil => rfl
  | cons p pending ih =>
      obtain ⟨hp, hpending⟩ := List.forall_mem_cons.mp hcommits
      obtain ⟨hadds, hrest⟩ := List.forall_mem_cons.mp h
      rw [List.foldl_cons, ih _ hpending hrest]
      cases p with
      | popBackStack name => exact hp.elim
      | commit ops name =>
          exact findFragmentByTag_execAll fun f hf ↦ hadds f (Pending.mem_adds_commit.mpr hf)

theorem mem_of_findFragmentByTag {f : Fragment} (h : findFragmentByTag c position = some f) :
    f ∈ c.added ∧ f.position = position :=
  ⟨List.mem_reverse.mp (List.mem_of_find?_eq_some h), by simpa using List.find?_some h⟩

theorem ne_of_findFragmentByTag_eq_none (h : findFragmentByTag c position = none) :
    ∀ f ∈ c.added, f.position ≠ position := by
  intro f hf
  simpa using List.find?_eq_none.mp h f (List.mem_reverse.mpr hf)

/-- The fragment that is added last is found. -/
theorem findFragmentByTag_add {f : Fragment} (hf : f ∉ c.added) :
    findFragmentByTag (c.exec (.add f)) f.position = some f := by
  rw [findFragmentByTag, Container.exec, if_neg hf, List.reverse_append, List.reverse_singleton,
    List.singleton_append, List.find?_cons_of_pos (by simp)]

end HiTabViewAdapter

namespace HiFragmentTabView

open HiTabViewAdapter

variable {v v' : HiFragmentTabView} {a : HiTabViewAdapter} {f : Fragment} {position : ℕ}

/-- The current fragment is the one that will be found for its position. -/
structure Newest (v : HiFragmentTabView) : Prop where
  separate : ∀ p ∈ v.manager.pending, ∀ g ∈ p.adds,
    ∀ f ∈ v.manager.executed.container.added, f.position ≠ g.position
  newest : ∀ a f, v.mAdapter = some a → a.mCurFragment = some f →
    findFragmentByTag v.container f.position = some f

theorem findFragmentByTag_commit {op : Op Fragment} :
    findFragmentByTag (v.commit a f op).container position =
      findFragmentByTag (v.container.exec op) position := by
  have hadded : ((v.container.execAll (a.mCurFragment.map Op.hide).toList).exec op).added =
      (v.container.exec op).added := by
    have hframe := (Container.execAll_hide_frame v.container a.mCurFragment).1
    rcases op with g | g | g
    · exact hframe
    · simp only [Container.exec, hframe]
      split
      · rfl
      · rfl
    · exact hframe
  rw [container_commit, Container.execAll_concat, findFragmentByTag, hadded, findFragmentByTag]

namespace Newest

theorem instantiateItem (h : v.Newest) (hcommits : ∀ p ∈ v.manager.pending, p.IsCommit)
    (hadded : ∀ f ∈ v.container.added, f.id < v.created)
    (hinst : v.instantiateItem a position = some v') : v'.Newest := by
  unfold HiFragmentTabView.instantiateItem at hinst
  cases hfound : findFragmentByTag v.manager.executed.container position with
  | some f =>
      rw [hfound] at hinst
      obtain rfl := Option.some.inj hinst
      obtain ⟨hmem, rfl⟩ := mem_of_findFragmentByTag hfound
      refine ⟨fun p hp g hg e he ↦ ?_, fun a' f' ha' hf' ↦ ?_⟩
      · rcases List.mem_append.mp hp with hp | hp
        · exact h.separate p hp g hg e he
        · rw [List.mem_singleton.mp hp, Pending.mem_adds_commit] at hg
          simp at hg
      · obtain rfl := Option.some.inj ha'
        obtain rfl := Option.some.inj hf'
        rw [findFragmentByTag_commit, findFragmentByTag_exec (by simp), container,
          findFragmentByTag_settled hcommits fun p hp g hg ↦ (h.separate p hp g hg f hmem).symm,
          hfound]
  | none =>
      rw [hfound] at hinst
      obtain ⟨f, hitem, rfl⟩ := Option.map_eq_some_iff.mp hinst
      obtain ⟨info, -, hinfo⟩ := Option.bind_eq_some_iff.mp hitem
      obtain ⟨-, hf⟩ := Option.ite_none_right_eq_some.mp hinfo
      obtain rfl := Option.some.inj hf
      refine ⟨fun p hp g hg e he ↦ ?_, fun a' f' ha' hf' ↦ ?_⟩
      · rcases List.mem_append.mp hp with hp | hp
        · exact h.separate p hp g hg e he
        · rw [List.mem_singleton.mp hp, Pending.mem_adds_commit] at hg
          obtain rfl : g = ⟨position, v.created⟩ := by simpa using hg
          exact ne_of_findFragmentByTag_eq_none hfound e he
      · obtain rfl := Option.some.inj ha'
        obtain rfl := Option.some.inj hf'
        rw [findFragmentByTag_commit]
        exact findFragmentByTag_add fun hmem ↦ Nat.lt_irrefl _ (hadded _ hmem)

theorem setCurrentItem (h : v.Newest) (hcommits : ∀ p ∈ v.manager.pending, p.IsCommit)
    (hadded : ∀ f ∈ v.container.added, f.id < v.created) {position : ℤ}
    (hselect : v.setCurrentItem position = some v') : v'.Newest := by
  rcases setCurrentItem_cases hselect with rfl | ⟨a, ha, -, -, hinst⟩
  · exact h
  · have hv : Newest { v with currentPosition := position } := ⟨h.separate, h.newest⟩
    exact hv.instantiateItem hcommits hadded hinst

end Newest

/-- What is restored: the fragment that is seen is found for the position. -/
structure Restorable (c : Container Fragment) (created : ℕ) (f : Fragment) : Prop where
  added : ∀ g ∈ c.added, g.id < created
  hidden : ∀ g : Fragment, created ≤ g.id → c.hidden g = false
  found : findFragmentByTag c f.position = some f
  visible : ∀ g, c.Visible g ↔ g = f

theorem Restorable.mono {c : Container Fragment} {created created' : ℕ}
    (h : Restorable c created f) (hle : created ≤ created') : Restorable c created' f where
  added g hg := Nat.lt_of_lt_of_le (h.added g hg) hle
  hidden g hg := h.hidden g (Nat.le_trans hle hg)
  found := h.found
  visible := h.visible

theorem Inv.restorable (h : v.Inv) (hnewest : v.Newest) (ha : v.mAdapter = some a)
    (hf : a.mCurFragment = some f) : Restorable v.container v.created f where
  added := h.added
  hidden := h.hidden
  found := hnewest.newest a f ha hf
  visible := (h.current a f ha hf).2

theorem created_le_of_setCurrentItem {position : ℤ}
    (hselect : v.setCurrentItem position = some v') :
    v.created ≤ v'.created := by
  rcases setCurrentItem_cases hselect with rfl | ⟨a, -, -, -, hinst⟩
  · exact Nat.le_refl _
  · obtain ⟨f, -, ⟨-, rfl⟩ | ⟨-, -, rfl⟩⟩ := instantiateItem_cases hinst
    · exact Nat.le_refl _
    · exact Nat.le_succ _

theorem mInfoList_of_setCurrentItem {position : ℤ}
    (hselect : v.setCurrentItem position = some v') :
    v'.mAdapter.map (·.mInfoList) = v.mAdapter.map (·.mInfoList) := by
  rcases setCurrentItem_cases hselect with rfl | ⟨a, ha, -, -, hinst⟩
  · rfl
  · rw [ha]
    obtain ⟨f, -, ⟨-, rfl⟩ | ⟨-, -, rfl⟩⟩ := instantiateItem_cases hinst
    · rfl
    · rfl

/-- A selection of a position in range does not throw when all classes can be instantiated. -/
theorem exists_setCurrentItem (ha : v.mAdapter = some a) (hlist : ∀ info ∈ a.mInfoList,
    info.instantiable = true) (hposition : position < a.mInfoList.length) :
    ∃ v', v.setCurrentItem position = some v' ∧
      (v'.currentPosition = position ∧ (v.currentPosition = position → v' = v)) := by
  have hrange : ¬ ((position : ℤ) < 0 ∨ (a.getCount : ℤ) ≤ position) := by
    unfold HiTabViewAdapter.getCount
    omega
  unfold setCurrentItem
  rw [ha, Option.bind_some, if_neg hrange]
  by_cases hsame : v.currentPosition = position
  · rw [if_neg (not_not_intro hsame)]
    exact ⟨v, rfl, hsame, fun _ ↦ rfl⟩
  rw [if_pos hsame]
  unfold HiFragmentTabView.instantiateItem
  split
  · exact ⟨_, rfl, rfl, fun h ↦ absurd h hsame⟩
  · have hitem : a.getItem position v.created = some ⟨position, v.created⟩ := by
      rw [HiTabViewAdapter.getItem, List.getElem?_eq_getElem hposition, Option.bind_some,
        if_pos (hlist _ (List.getElem_mem hposition))]
    refine ⟨_, Option.map_eq_some_iff.mpr ⟨_, hitem, rfl⟩, rfl, fun h ↦ absurd h hsame⟩

end HiFragmentTabView

/-! ### The page -/

namespace MainActivityLogic

variable {s s' : MainActivityLogic} {info : ℕ}

/-- The tab of one info is selected in each of the parts. -/
structure Inv (s : MainActivityLogic) : Prop where
  layout : s.hiTabBottomLayout.Inv bottomViews
  infos : s.hiTabBottomLayout.infoList = infoList
  view : s.fragmentTabView.Inv
  newest : s.fragmentTabView.Newest
  adapter : s.fragmentTabView.mAdapter.map (·.mInfoList) = some fragmentClasses
  selected : ∃ info ∈ infoList, s.hiTabBottomLayout.selectedInfo = some info ∧
    s.currentItemIndex = info ∧ s.fragmentTabView.currentPosition = info

theorem indexOf_infoList : ∀ info ∈ infoList, Layout.indexOf infoList info = info := by
  decide

theorem nodup_infoList : infoList.Nodup := List.nodup_range

theorem instantiable_fragmentClasses : ∀ info ∈ fragmentClasses, info.instantiable = true := by
  decide

theorem lt_of_mem_infoList (hinfo : info ∈ infoList) : info < fragmentClasses.length := by
  rw [fragmentClasses, List.length_map, infoList, List.length_range]
  exact List.mem_range.mp hinfo

/-- A selected position has a current fragment. -/
theorem exists_current {v : HiFragmentTabView} (hv : v.Inv)
    (hadapter : v.mAdapter.map (·.mInfoList) = some fragmentClasses)
    (hposition : v.currentPosition = info) :
    ∃ a f, v.mAdapter = some a ∧ a.mCurFragment = some f ∧ f.position = info := by
  obtain ⟨a, ha, -⟩ := Option.map_eq_some_iff.mp hadapter
  cases hcurrent : a.mCurFragment with
  | none =>
      have := (hv.unselected a ha hcurrent).2
      omega
  | some f =>
      have := (hv.current a f ha hcurrent).1
      exact ⟨a, f, ha, hcurrent, by omega⟩

theorem Inv.showsOne (h : s.Inv) : s.ShowsOne := by
  obtain ⟨info, hinfo, hselected, hindex, hposition⟩ := h.selected
  obtain ⟨a, f, ha, hf, hfinfo⟩ := exists_current h.view h.adapter hposition
  refine ⟨h.layout.showsSelected, info, hinfo, hselected, hindex, hposition, f, ⟨hfinfo, ?_⟩,
    (h.view.current a f ha hf).2⟩
  rw [ha, Option.bind_some, hf]

/-- A selection does not throw, and the page follows it. -/
theorem Inv.onSelected (h : s.Inv) (hinfo : info ∈ infoList) :
    ∃ s', s.onSelected info = some s' ∧ s'.Inv ∧
      s.fragmentTabView.created ≤ s'.fragmentTabView.created := by
  obtain ⟨a, ha, hlist⟩ := Option.map_eq_some_iff.mp h.adapter
  obtain ⟨v, hv, hposition, -⟩ := HiFragmentTabView.exists_setCurrentItem ha
    (hlist ▸ instantiable_fragmentClasses) (hlist ▸ lt_of_mem_infoList hinfo)
  refine ⟨⟨s.hiTabBottomLayout.onSelected info, v, info⟩, ?_, ⟨?_, ?_, h.view.setCurrentItem hv,
    h.newest.setCurrentItem h.view.commits h.view.added hv, ?_, info, hinfo, rfl, rfl, hposition⟩,
    HiFragmentTabView.created_le_of_setCurrentItem hv⟩
  · rw [MainActivityLogic.onSelected, onTabSelectedChange, h.infos, indexOf_infoList info hinfo,
      hv, Option.map_some, Option.map_some]
  · exact h.layout.onSelected (h.infos ▸ hinfo)
  · exact h.infos
  · exact (HiFragmentTabView.mInfoList_of_setCurrentItem hv).trans h.adapter

theorem Inv.onClick (h : s.Inv) {id : ℕ} (hid : id ∈ bottomViews.tabs s.hiTabBottomLayout.views) :
    ∃ s', s.onClick id = some s' ∧ s'.Inv ∧
      s.fragmentTabView.created ≤ s'.fragmentTabView.created := by
  obtain ⟨tab, htab, hinfo⟩ := h.layout.mem_infoList hid
  rw [MainActivityLogic.onClick, htab, Option.bind_some]
  exact h.onSelected (h.infos ▸ hinfo)

theorem Inv.execPendingActions (h : s.Inv) : s.execPendingActions.Inv where
  layout := h.layout
  infos := h.infos
  view := ⟨fun _ hp ↦ absurd hp List.not_mem_nil, h.view.added, h.view.hidden,
    h.view.unselected, h.view.unattached, h.view.current⟩
  newest := ⟨fun _ hp ↦ absurd hp List.not_mem_nil, h.newest.newest⟩
  adapter := h.adapter
  selected := h.selected

/-! ### Restoring it -/

/-- What was saved is of one tab, whose fragment is seen. -/
def Saves (saved : SavedState) (created : ℕ) : Prop :=
  ∃ info ∈ infoList, saved.currentItemIndex = info ∧
    ∃ f, f.position = info ∧ HiFragmentTabView.Restorable saved.fragments created f

theorem Inv.saved (h : s.Inv) :
    Saves
      { currentItemIndex := s.currentItemIndex, fragments := s.fragmentTabView.container }
      s.fragmentTabView.created := by
  obtain ⟨info, hinfo, -, hindex, hposition⟩ := h.selected
  obtain ⟨a, f, ha, hf, hfinfo⟩ := exists_current h.view h.adapter hposition
  exact ⟨info, hinfo, hindex, f, hfinfo, h.view.restorable h.newest ha hf⟩

theorem inv_layout :
    ((emptyLayout.inflateInfo bottomViews infoList).addTabSelectedChangeListener).Inv
      bottomViews := by
  have hfresh : emptyLayout.Fresh bottomViews := ⟨rfl, rfl, rfl, rfl⟩
  exact ((hfresh.inv bottomViews).inflateInfo nodup_infoList).addTabSelectedChangeListener

/-- The restored fragment of the position is shown again, and the others are hidden already. -/
theorem inv_restored {c : Container Fragment} {created : ℕ} {f : Fragment} {a : HiTabViewAdapter}
    {v : HiFragmentTabView} (hc : HiFragmentTabView.Restorable c created f)
    (ha : a.mCurFragment = none) (hcontainer : v.manager.executed = { container := c })
    (hpending : v.manager.pending = []) (hcreated : v.created = created)
    (hposition : v.currentPosition = f.position) :
    (v.commit a f (.show f)).Inv ∧ (v.commit a f (.show f)).Newest := by
  have hmem := (HiTabViewAdapter.mem_of_findFragmentByTag hc.found).1
  have hsettled : v.container = c := by
    rw [HiFragmentTabView.container, Manager.settled, hpending, hcontainer]
    rfl
  have hshow : (v.commit a f (.show f)).container = c.exec (.show f) := by
    rw [HiFragmentTabView.container_commit, hsettled, ha]
    rfl
  have hqueue : (v.commit a f (.show f)).manager.pending = [.commit [.show f] none] := by
    rw [HiFragmentTabView.commit, Manager.enqueue, hpending, ha]
    rfl
  refine ⟨⟨?_, ?_, ?_, ?_, ?_, ?_⟩, ?_, ?_⟩
  · rw [hqueue]
    rintro p hp
    rw [List.mem_singleton.mp hp]
    trivial
  · rw [hshow]
    exact fun g hg ↦ hcreated ▸ hc.added g hg
  · rw [hshow]
    intro g hg
    by_cases hsame : g = f
    · simp [Container.exec, hsame]
    · simpa [Container.exec, hsame] using hc.hidden g (hcreated ▸ hg)
  · rintro a' ha' hnone
    obtain rfl := Option.some.inj ha'
    cases hnone
  · rintro hnone
    cases hnone
  · rintro a' g ha' hg
    obtain rfl := Option.some.inj ha'
    obtain rfl := Option.some.inj hg
    refine ⟨hposition.symm, fun g ↦ ?_⟩
    rw [hshow, Container.visible_show hmem, hc.visible, or_self]
  · rw [hqueue]
    rintro p hp g hg
    rw [List.mem_singleton.mp hp, Pending.mem_adds_commit] at hg
    simp at hg
  · rintro a' g ha' hg
    obtain rfl := Option.some.inj ha'
    obtain rfl := Option.some.inj hg
    rw [hshow, HiTabViewAdapter.findFragmentByTag_exec (by simp), hc.found]

theorem getElem?_infoList (hinfo : info ∈ infoList) : infoList[info]? = some info :=
  List.getElem?_range (List.mem_range.mp hinfo)

theorem exists_create_of_saves {saved : SavedState} {created : ℕ} (h : Saves saved created) :
    ∃ s, create (some saved) created = some s ∧ s.Inv ∧ s.fragmentTabView.created = created := by
  obtain ⟨info, hinfo, hindex, f, rfl, hf⟩ := h
  let a : HiTabViewAdapter := { mInfoList := fragmentClasses }
  let v : HiFragmentTabView :=
    { mAdapter := some a, currentPosition := f.position,
      manager := { executed := { container := saved.fragments } }, created }
  obtain ⟨hview, hnewest⟩ := inv_restored (v := v) (a := a) hf rfl rfl rfl rfl rfl
  have hselect : (initFragmentTabView saved.fragments created).setCurrentItem f.position =
      some (v.commit a f (.show f)) := by
    have hlt := lt_of_mem_infoList hinfo
    have hrange : ¬ ((f.position : ℤ) < 0 ∨ (a.getCount : ℤ) ≤ f.position) := by
      have hcount : a.getCount = fragmentClasses.length := rfl
      omega
    have hne : (initFragmentTabView saved.fragments created).currentPosition ≠ f.position := by
      have hminus : (initFragmentTabView saved.fragments created).currentPosition = -1 := rfl
      omega
    have hadapter : (initFragmentTabView saved.fragments created).mAdapter = some a := rfl
    rw [HiFragmentTabView.setCurrentItem, hadapter, Option.bind_some, if_neg hrange, if_pos hne,
      HiFragmentTabView.instantiateItem]
    have hfound : HiTabViewAdapter.findFragmentByTag
        (initFragmentTabView saved.fragments created).manager.executed.container
        (f.position : ℤ).toNat = some f := hf.found
    simp only [hfound]
    rfl
  refine ⟨⟨((emptyLayout.inflateInfo bottomViews infoList).addTabSelectedChangeListener).onSelected
      f.position, v.commit a f (.show f), f.position⟩, ?_, ⟨inv_layout.onSelected hinfo, rfl,
      hview, hnewest, rfl, f.position, hinfo, rfl, rfl, rfl⟩, rfl⟩
  rw [create, Option.elim_some, Option.elim_some, initTabBottom, hindex,
    if_pos (Int.natCast_nonneg _), Int.toNat_natCast, getElem?_infoList hinfo, Option.bind_some,
    MainActivityLogic.onSelected, onTabSelectedChange]
  have hindexOf : Layout.indexOf
      ((emptyLayout.inflateInfo bottomViews infoList).addTabSelectedChangeListener).infoList
      f.position = f.position := indexOf_infoList _ hinfo
  rw [hindexOf, hselect]
  rfl

theorem exists_create : ∃ s, create none 0 = some s ∧ s.Inv := by
  have hview : (initFragmentTabView {} 0).Inv :=
    HiFragmentTabView.inv_init.setAdapter fragmentClasses
  have hnewest : (initFragmentTabView {} 0).Newest := by
    refine ⟨fun _ hp ↦ absurd hp List.not_mem_nil, fun a f ha hf ↦ ?_⟩
    obtain rfl := Option.some.inj ha
    cases hf
  obtain ⟨v, hv, hposition, -⟩ := HiFragmentTabView.exists_setCurrentItem
    (v := initFragmentTabView {} 0) rfl instantiable_fragmentClasses
    (lt_of_mem_infoList (by decide : 0 ∈ infoList))
  refine ⟨⟨((emptyLayout.inflateInfo bottomViews infoList).addTabSelectedChangeListener).onSelected
      0, v, 0⟩, ?_,
    ⟨inv_layout.onSelected (by decide), rfl, hview.setCurrentItem hv,
      hnewest.setCurrentItem hview.commits hview.added hv,
      HiFragmentTabView.mInfoList_of_setCurrentItem hv, 0, by decide, rfl, rfl, hposition⟩⟩
  have hfirst : create none 0 = onSelected 0
      { hiTabBottomLayout :=
          (emptyLayout.inflateInfo bottomViews infoList).addTabSelectedChangeListener
        fragmentTabView := initFragmentTabView {} 0
        currentItemIndex := 0 } := rfl
  have hindexOf : Layout.indexOf
      ((emptyLayout.inflateInfo bottomViews infoList).addTabSelectedChangeListener).infoList 0 =
      0 := rfl
  rw [hfirst, MainActivityLogic.onSelected, hindexOf, onTabSelectedChange]
  have hv : (initFragmentTabView {} 0).setCurrentItem 0 = some v := hv
  rw [hv]
  rfl

end MainActivityLogic

namespace HiMainActivity

open MainActivityLogic

variable {s s' : HiMainActivity} {action : Action}

/-- The page is of one tab, and so is what was saved of it. -/
structure Inv (s : HiMainActivity) : Prop where
  logic : s.activityLogic.Inv
  saves : ∀ saved, s.saved = some saved → Saves saved s.activityLogic.fragmentTabView.created

theorem saves_mono {saved : SavedState} {created created' : ℕ} (h : Saves saved created)
    (hle : created ≤ created') : Saves saved created' := by
  obtain ⟨info, hinfo, hindex, f, hf, hrestorable⟩ := h
  exact ⟨info, hinfo, hindex, f, hf, hrestorable.mono hle⟩

theorem Inv.step (h : s.Inv) (hstep : s.step action = some s') : s'.Inv := by
  cases action with
  | onClick id =>
      obtain ⟨hid, hclick⟩ := Option.ite_none_right_eq_some.mp hstep
      obtain ⟨logic, hlogic, hinv, hle⟩ := h.logic.onClick hid
      rw [hlogic, Option.map_some, Option.some.injEq] at hclick
      subst hclick
      exact ⟨hinv, fun saved hsaved ↦ saves_mono (h.saves saved hsaved) hle⟩
  | execPendingActions =>
      obtain rfl := Option.some.inj hstep
      exact ⟨h.logic.execPendingActions, h.saves⟩
  | onSaveInstanceState =>
      obtain rfl := Option.some.inj hstep
      refine ⟨h.logic.execPendingActions, fun saved hsaved ↦ ?_⟩
      obtain rfl := Option.some.inj hsaved
      exact h.logic.saved
  | recreate =>
      obtain ⟨saved, hsaved, hcreate⟩ := Option.bind_eq_some_iff.mp hstep
      obtain ⟨logic, hlogic, hinv, hcreated⟩ := exists_create_of_saves (h.saves saved hsaved)
      rw [hlogic, Option.map_some, Option.some.injEq] at hcreate
      subst hcreate
      refine ⟨hinv, fun saved' hsaved' ↦ ?_⟩
      rw [hcreated]
      exact h.saves saved' hsaved'

/-- Whatever is selected, saved and recreated, the page shows one tab in all of its parts, and
neither a selection nor a recreation throws. -/
theorem showsOne_of_run :
    ∃ s₀, onCreate = some s₀ ∧ ∀ actions s, run step s₀ actions = some s →
      s.activityLogic.ShowsOne ∧
        (∀ id ∈ bottomViews.tabs s.activityLogic.hiTabBottomLayout.views,
          s.step (.onClick id) ≠ none) ∧
        (s.saved ≠ none → s.step .recreate ≠ none) := by
  obtain ⟨logic, hlogic, hinv⟩ := exists_create
  refine ⟨{ activityLogic := logic }, by rw [onCreate, hlogic, Option.map_some], ?_⟩
  intro actions s hrun
  have h : s.Inv := run_invariant' (fun _ _ _ hu hstep ↦ hu.step hstep)
    ⟨hinv, fun saved hsaved ↦ by cases hsaved⟩ hrun
  refine ⟨h.logic.showsOne, fun id hid ↦ ?_, fun hne ↦ ?_⟩
  · obtain ⟨logic', hclick, -⟩ := h.logic.onClick hid
    simp [HiMainActivity.step, hid, hclick]
  · obtain ⟨saved, hsaved⟩ := Option.ne_none_iff_exists'.mp hne
    obtain ⟨logic', hcreate, -⟩ := exists_create_of_saves (h.saves saved hsaved)
    simp [HiMainActivity.step, recreate, hsaved, hcreate]

/-- A tab is selected after the state was saved, and is no longer after the recreation. -/
theorem showsOne_of_run_recreate :
    ∃ s₀, onCreate = some s₀ ∧ ∃ s, run step s₀ [.onClick 2, .execPendingActions, .onClick 0,
        .onSaveInstanceState, .onClick 3, .recreate, .execPendingActions] = some s ∧
      s.activityLogic.ShowsOne := by
  obtain ⟨s₀, hs₀, h⟩ := showsOne_of_run
  have hsome : (onCreate.bind fun s₀ ↦ run step s₀ [.onClick 2, .execPendingActions, .onClick 0,
      .onSaveInstanceState, .onClick 3, .recreate, .execPendingActions]).isSome = true := by
    decide
  rw [hs₀, Option.bind_some] at hsome
  obtain ⟨s, hrun⟩ := Option.isSome_iff_exists.mp hsome
  exact ⟨s₀, hs₀, s, hrun, (h _ s hrun).1⟩

end HiMainActivity

end HiApp.Tab
