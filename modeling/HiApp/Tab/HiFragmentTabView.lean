import HiApp.Lib.FragmentManager
import HiApp.Lib.Runs

/-!
# The fragments of the tabs

`HiTabViewAdapter` looks for the fragment of a position by its tag and makes one when there is
none.  The transactions that add fragments are carried out later, and until then nothing is
found for their positions.
-/

namespace HiApp.Tab

open Runs FragmentManager

/-- The tag of a fragment is its position; `id` is the number of those made before. -/
structure Fragment where
  position : ℕ
  id : ℕ
  deriving DecidableEq

/-- Whether its fragment has a class that can be instantiated. -/
structure HiTabBottomInfo where
  instantiable : Bool
  deriving DecidableEq

structure HiTabViewAdapter where
  mInfoList : List HiTabBottomInfo
  mCurFragment : Option Fragment := none
  deriving DecidableEq

structure HiFragmentTabView where
  mAdapter : Option HiTabViewAdapter := none
  currentPosition : ℤ := 0
  manager : Manager Fragment Unit := {}
  created : ℕ := 0

namespace HiTabViewAdapter

def getCount (a : HiTabViewAdapter) : ℕ := a.mInfoList.length

def getItem (a : HiTabViewAdapter) (position created : ℕ) : Option Fragment :=
  (a.mInfoList[position]?).bind fun info ↦
    if info.instantiable then some ⟨position, created⟩ else none

/-- The fragment that was added last is found first. -/
def findFragmentByTag (c : Container Fragment) (position : ℕ) : Option Fragment :=
  c.added.reverse.find? (·.position = position)

end HiTabViewAdapter

namespace HiFragmentTabView

def setAdapter (v : HiFragmentTabView) (adapter : Option HiTabViewAdapter) : HiFragmentTabView :=
  if v.mAdapter ≠ none ∨ adapter = none then v
  else { v with mAdapter := adapter, currentPosition := -1 }

/-- The fragment becomes the current one, and the transaction is queued. -/
def commit (v : HiFragmentTabView) (a : HiTabViewAdapter) (fragment : Fragment)
    (op : Op Fragment) : HiFragmentTabView :=
  { v with
    mAdapter := some { a with mCurFragment := some fragment }
    manager := v.manager.enqueue
      (.commit ((a.mCurFragment.map Op.hide).toList ++ [op]) none) }

/-- A fragment that was just made is not added yet; when none can be made, this throws. -/
def instantiateItem (v : HiFragmentTabView) (a : HiTabViewAdapter) (position : ℕ) :
    Option HiFragmentTabView :=
  match HiTabViewAdapter.findFragmentByTag v.manager.executed.container position with
  | some fragment => some (v.commit a fragment (.show fragment))
  | none =>
      (a.getItem position v.created).map fun fragment ↦
        { v with created := v.created + 1 }.commit a fragment (.add fragment)

/-- Throws without an adapter. -/
def setCurrentItem (v : HiFragmentTabView) (position : ℤ) : Option HiFragmentTabView :=
  v.mAdapter.bind fun a ↦
    if position < 0 ∨ (a.getCount : ℤ) ≤ position then some v
    else if v.currentPosition ≠ position then
      instantiateItem { v with currentPosition := position } a position.toNat
    else some v

inductive Action where
  | setAdapter (infoList : List HiTabBottomInfo)
  | setCurrentItem (position : ℤ)
  | execute
  deriving DecidableEq

def step (v : HiFragmentTabView) : Action → Option HiFragmentTabView
  | .setAdapter infoList => some (v.setAdapter (some { mInfoList := infoList }))
  | .setCurrentItem position => v.setCurrentItem position
  | .execute => v.manager.executeNext.map fun manager ↦ { v with manager := manager }

/-- No position has two fragments, and when nothing is queued that of the selected position is
the only one to be seen. -/
structure OnePerTab (v : HiFragmentTabView) : Prop where
  one : ∀ f ∈ v.manager.executed.container.added, ∀ g ∈ v.manager.executed.container.added,
    f.position = g.position → f = g
  visible : v.manager.pending = [] → v.mAdapter ≠ none → 0 ≤ v.currentPosition →
    ∃ f, (f.position : ℤ) = v.currentPosition ∧
      ∀ g, v.manager.executed.container.Visible g ↔ g = f

/-- A position is selected while no fragment is queued for it. -/
def NotQueued (v : HiFragmentTabView) : Action → Prop
  | .setCurrentItem position => position ≠ v.currentPosition →
      ∀ p ∈ v.manager.pending, ∀ f ∈ p.adds, (f.position : ℤ) ≠ position
  | .setAdapter _ | .execute => True

instance {v : HiFragmentTabView} : DecidablePred v.NotQueued
  | .setCurrentItem position => inferInstanceAs (Decidable (position ≠ v.currentPosition →
      ∀ p ∈ v.manager.pending, ∀ f ∈ p.adds, (f.position : ℤ) ≠ position))
  | .setAdapter _ | .execute => isTrue trivial

/-- What is there once the queue is empty. -/
def container (v : HiFragmentTabView) : Container Fragment := v.manager.settled.container

/-- In the end the current fragment is seen and is the one of the selected position. -/
structure Inv (v : HiFragmentTabView) : Prop where
  commits : ∀ p ∈ v.manager.pending, p.IsCommit
  added : ∀ f ∈ v.container.added, f.id < v.created
  hidden : ∀ f : Fragment, v.created ≤ f.id → v.container.hidden f = false
  unselected : ∀ a, v.mAdapter = some a → a.mCurFragment = none →
    v.container.added = [] ∧ v.currentPosition = -1
  unattached : v.mAdapter = none → v.container.added = []
  current : ∀ a f, v.mAdapter = some a → a.mCurFragment = some f →
    (f.position : ℤ) = v.currentPosition ∧ ∀ g, v.container.Visible g ↔ g = f

variable {v v' : HiFragmentTabView} {a : HiTabViewAdapter} {f : Fragment} {position : ℕ}

/-- A fragment is found, or made when there is none. -/
theorem instantiateItem_cases (h : v.instantiateItem a position = some v') :
    ∃ f : Fragment, f.position = position ∧
      (f ∈ v.manager.executed.container.added ∧ v' = v.commit a f (.show f) ∨
        (∀ g ∈ v.manager.executed.container.added, g.position ≠ position) ∧ f.id = v.created ∧
          v' = commit { v with created := v.created + 1 } a f (.add f)) := by
  unfold instantiateItem at h
  split at h
  · rename_i fragment hfound
    have hposition : fragment.position = position := by simpa using List.find?_some hfound
    have hmem := List.mem_reverse.mp (List.mem_of_find?_eq_some hfound)
    exact ⟨fragment, hposition, .inl ⟨hmem, (Option.some.inj h).symm⟩⟩
  · rename_i hnone
    obtain ⟨fragment, hitem, hv⟩ := Option.map_eq_some_iff.mp h
    obtain ⟨info, -, hinfo⟩ := Option.bind_eq_some_iff.mp hitem
    obtain ⟨-, hfragment⟩ := Option.ite_none_right_eq_some.mp hinfo
    obtain rfl := Option.some.inj hfragment
    refine ⟨_, rfl, .inr ⟨fun g hg ↦ ?_, rfl, hv.symm⟩⟩
    simpa using List.find?_eq_none.mp hnone g (List.mem_reverse.mpr hg)

theorem container_commit (v : HiFragmentTabView) (a : HiTabViewAdapter) (f : Fragment)
    (op : Op Fragment) :
    (v.commit a f op).container =
      v.container.execAll ((a.mCurFragment.map Op.hide).toList ++ [op]) := by
  rw [container, commit, Manager.settled_enqueue]
  rfl

/-- What a selection comes to. -/
theorem setCurrentItem_cases {position : ℤ} (hselect : v.setCurrentItem position = some v') :
    v' = v ∨ ∃ a, v.mAdapter = some a ∧ 0 ≤ position ∧ v.currentPosition ≠ position ∧
      instantiateItem { v with currentPosition := position } a position.toNat = some v' := by
  obtain ⟨a, ha, hcases⟩ := Option.bind_eq_some_iff.mp hselect
  split at hcases
  · exact .inl (Option.some.inj hcases).symm
  · rename_i hrange
    split at hcases
    · rename_i hne
      exact .inr ⟨a, ha, by omega, hne, hcases⟩
    · exact .inl (Option.some.inj hcases).symm

theorem mem_container_commit {op : Op Fragment} {g : Fragment} :
    g ∈ (v.commit a f op).container.added ↔ g ∈ v.container.added ∨ .add g = op := by
  rw [container_commit, Container.execAll_concat, Container.mem_added_exec,
    (Container.execAll_hide_frame v.container a.mCurFragment).1]

namespace Inv

theorem mem_container (h : v.Inv) (hf : f ∈ v.manager.executed.container.added) :
    f ∈ v.container.added :=
  (Manager.mem_added_settled h.commits).mpr (.inl hf)

theorem commits_commit (h : v.Inv) (f : Fragment) (op : Op Fragment) :
    ∀ p ∈ (v.commit a f op).manager.pending, p.IsCommit := by
  intro p hp
  rcases List.mem_append.mp hp with hp | hp
  · exact h.commits p hp
  · rw [List.mem_singleton.mp hp]
    trivial

/-- Only the current fragment is to be seen. -/
theorem eq_of_visible (h : v.Inv) (ha : v.mAdapter = some a) (hf : v.container.Visible f) :
    a.mCurFragment = some f := by
  cases hcurrent : a.mCurFragment with
  | none =>
      have hmem := hf.1
      rw [(h.unselected a ha hcurrent).1] at hmem
      exact absurd hmem List.not_mem_nil
  | some g =>
      rw [((h.current a g ha hcurrent).2 f).mp hf]

theorem hide (h : v.Inv) (ha : v.mAdapter = some a) (f : Fragment) :
    ¬ (v.container.execAll (a.mCurFragment.map Op.hide).toList).Visible f := by
  intro hf
  cases hcurrent : a.mCurFragment with
  | none =>
      rw [hcurrent] at hf
      rw [h.eq_of_visible ha hf] at hcurrent
      cases hcurrent
  | some g =>
      rw [hcurrent] at hf
      obtain ⟨hvisible, hne⟩ := Container.visible_hide.mp hf
      rw [h.eq_of_visible ha hvisible] at hcurrent
      exact hne (Option.some.inj hcurrent)

/-- A fragment of another position takes the place of the current one. -/
theorem commit (h : v.Inv) (ha : v.mAdapter = some a) {op : Op Fragment} {created : ℕ}
    (hcreated : v.created ≤ created) (hid : f.id < created)
    (hne : a.mCurFragment ≠ some f)
    (hop : op = .show f ∧ f ∈ v.container.added ∨ op = .add f ∧ f.id = v.created) :
    (HiFragmentTabView.commit
      { v with currentPosition := f.position, created := created } a f op).Inv := by
  have hcontainer : (HiFragmentTabView.commit
      { v with currentPosition := f.position, created := created } a f op).container =
        (v.container.execAll (a.mCurFragment.map Op.hide).toList).exec op := by
    rw [container_commit, Container.execAll_concat]
    rfl
  obtain ⟨hadded, hframe⟩ := Container.execAll_hide_frame v.container a.mCurFragment
  have hhidden := h.hide ha
  generalize v.container.execAll (a.mCurFragment.map Op.hide).toList = c
    at hcontainer hadded hframe hhidden
  -- whatever fragment there will be, it is not one that has been hidden
  have hfresh : ∀ g : Fragment, v.created ≤ g.id → c.hidden g = false := by
    intro g hg
    rw [hframe g, h.hidden g hg]
    intro hcurrent
    have hthere := ((h.current a g ha hcurrent).2 g).mpr rfl
    exact Nat.not_lt.mpr hg (h.added g hthere.1)
  have hmem : ∀ g ∈ (c.exec op).added, g ∈ v.container.added ∨ g = f := by
    intro g hg
    rcases Container.mem_added_exec.mp hg with hg | hg
    · exact .inl (hadded ▸ hg)
    · rcases hop with ⟨rfl, -⟩ | ⟨rfl, -⟩
      · cases hg
      · exact .inr (Op.add.inj hg)
  refine ⟨h.commits_commit f op, ?_, ?_, ?_, ?_, ?_⟩
  all_goals rw [hcontainer]
  · intro g hg
    rcases hmem g hg with hg | rfl
    · exact Nat.lt_of_lt_of_le (h.added g hg) hcreated
    · exact hid
  · intro g hg
    have hold := hfresh g (Nat.le_trans hcreated hg)
    rcases hop with ⟨rfl, -⟩ | ⟨rfl, -⟩
    · by_cases hsame : g = f
      · simp [Container.exec, hsame]
      · simp [Container.exec, hsame, hold]
    · by_cases hf : f ∈ c.added
      · simp [Container.exec, hf, hold]
      · simp [Container.exec, hf, hold]
  · rintro a' ha' hnone
    obtain rfl := Option.some.inj ha'
    cases hnone
  · intro hnone
    cases hnone
  · rintro a' f' ha' hf'
    obtain rfl := Option.some.inj ha'
    obtain rfl := Option.some.inj hf'
    refine ⟨rfl, fun g ↦ ?_⟩
    rcases hop with ⟨rfl, hthere⟩ | ⟨rfl, hnew⟩
    · rw [Container.visible_show (hadded ▸ hthere), or_iff_right (hhidden g)]
    · have hnot : f ∉ c.added := by
        rw [hadded]
        exact fun hthere ↦ Nat.ne_of_lt (h.added f hthere) hnew
      rw [Container.visible_add hnot (hfresh f (Nat.le_of_eq hnew.symm)),
        or_iff_right (hhidden g)]

theorem setAdapter (h : v.Inv) (infoList : List HiTabBottomInfo) :
    (v.setAdapter (some { mInfoList := infoList })).Inv := by
  unfold HiFragmentTabView.setAdapter
  split
  · exact h
  · rename_i hnone
    have hadapter : v.mAdapter = none := by simpa using hnone
    refine ⟨h.commits, h.added, h.hidden, fun _ _ _ ↦ ⟨h.unattached hadapter, rfl⟩, ?_, ?_⟩
    · intro hsome
      cases hsome
    · rintro a f ha hf
      obtain rfl := Option.some.inj ha
      cases hf

theorem setCurrentItem (h : v.Inv) {position : ℤ}
    (hselect : v.setCurrentItem position = some v') : v'.Inv := by
  rcases setCurrentItem_cases hselect with rfl | ⟨a, ha, hnonneg, hne, hinst⟩
  · exact h
  obtain ⟨position, rfl⟩ := Int.eq_ofNat_of_zero_le hnonneg
  obtain ⟨f, rfl, hcases⟩ := instantiateItem_cases hinst
  have hcurrent : a.mCurFragment ≠ some f := by
    intro hcurrent
    exact hne (h.current a f ha hcurrent).1.symm
  rcases hcases with ⟨hthere, rfl⟩ | ⟨-, hid, rfl⟩
  · have hadded := h.mem_container hthere
    exact h.commit ha (Nat.le_refl _) (h.added f hadded) hcurrent (.inl ⟨rfl, hadded⟩)
  · have hid : f.id = v.created := hid
    exact h.commit ha (Nat.le_succ _) (by omega) hcurrent (.inr ⟨rfl, hid⟩)

theorem step {action : Action} (h : v.Inv) (hstep : v.step action = some v') : v'.Inv := by
  cases action with
  | setAdapter infoList =>
      obtain rfl := Option.some.inj hstep
      exact h.setAdapter infoList
  | setCurrentItem position => exact h.setCurrentItem hstep
  | execute =>
      obtain ⟨manager, hmanager, rfl⟩ := Option.map_eq_some_iff.mp hstep
      have hcontainer : container { v with manager := manager } = v.container := by
        rw [container, Manager.settled_executeNext hmanager]
        rfl
      refine ⟨fun p hp ↦ h.commits p (Manager.mem_pending_of_executeNext hmanager hp),
        ?_, ?_, ?_, ?_, ?_⟩
      all_goals rw [hcontainer]
      · exact h.added
      · exact h.hidden
      · exact h.unselected
      · exact h.unattached
      · exact h.current

end Inv

theorem inv_init : ({} : HiFragmentTabView).Inv := by
  refine ⟨?_, ?_, fun _ _ ↦ rfl, ?_, fun _ ↦ rfl, ?_⟩
  · intro p hp
    cases hp
  · intro f hf
    cases hf
  · intro a ha
    cases ha
  · intro a f ha
    cases ha

/-! ## One fragment a position -/

/-- In the end no position has two fragments. -/
def Unique (v : HiFragmentTabView) : Prop :=
  ∀ f ∈ v.container.added, ∀ g ∈ v.container.added, f.position = g.position → f = g

theorem Unique.step (hunique : v.Unique) (h : v.Inv) {action : Action}
    (hqueued : v.NotQueued action) (hstep : v.step action = some v') : v'.Unique := by
  cases action with
  | setAdapter infoList =>
      obtain rfl := Option.some.inj hstep
      unfold HiFragmentTabView.setAdapter
      split
      · exact hunique
      · exact hunique
  | setCurrentItem position =>
      rcases setCurrentItem_cases hstep with rfl | ⟨a, ha, hnonneg, hne, hinst⟩
      · exact hunique
      obtain ⟨position, rfl⟩ := Int.eq_ofNat_of_zero_le hnonneg
      obtain ⟨f, rfl, ⟨-, rfl⟩ | ⟨hnone, -, rfl⟩⟩ := instantiateItem_cases hinst
      · intro g hg g' hg'
        rw [mem_container_commit, or_iff_left (by simp)] at hg hg'
        exact hunique g hg g' hg'
      -- neither there nor queued
      have hnew : ∀ g ∈ v.container.added, g.position ≠ f.position := by
        intro g hg
        rcases (Manager.mem_added_settled h.commits).mp hg with hg | ⟨p, hp, hg⟩
        · exact hnone g hg
        · exact fun heq ↦ hqueued (Ne.symm hne) p hp g hg (congrArg Int.ofNat heq)
      intro g hg g' hg' heq
      rw [mem_container_commit, Op.add.injEq] at hg hg'
      rcases hg with hg | rfl
      · rcases hg' with hg' | rfl
        · exact hunique g hg g' hg' heq
        · exact absurd heq (hnew g hg)
      · rcases hg' with hg' | rfl
        · exact absurd heq.symm (hnew g' hg')
        · rfl
  | execute =>
      obtain ⟨manager, hmanager, rfl⟩ := Option.map_eq_some_iff.mp hstep
      unfold Unique container
      rw [Manager.settled_executeNext hmanager]
      exact hunique

/-- Whatever is queued twice, in the end one fragment is to be seen. -/
theorem Inv.visible (h : v.Inv) (hpending : v.manager.pending = []) (hadapter : v.mAdapter ≠ none)
    (hselected : 0 ≤ v.currentPosition) :
    ∃ f, (f.position : ℤ) = v.currentPosition ∧
      ∀ g, v.manager.executed.container.Visible g ↔ g = f := by
  have hcontainer : v.container = v.manager.executed.container := by
    rw [container, Manager.settled, hpending]
    rfl
  obtain ⟨a, ha⟩ := Option.ne_none_iff_exists'.mp hadapter
  cases hcurrent : a.mCurFragment with
  | none =>
      have := (h.unselected a ha hcurrent).2
      omega
  | some f => exact ⟨f, hcontainer ▸ h.current a f ha hcurrent⟩

/-- When no position is selected again before its fragment is added, each has one. -/
theorem onePerTab_of_notQueued {actions : List Action}
    (hqueued : StepsMeet step NotQueued {} actions) : StatesMeet step OnePerTab {} actions := by
  refine statesMeet_of_stepsMeet (I := fun u ↦ u.Inv ∧ u.Unique) (C := NotQueued) ?_ ?_
    ⟨inv_init, ?_⟩ hqueued
  · intro u action w hu hC hstep
    exact ⟨hu.1.step hstep, hu.2.step hu.1 hC hstep⟩
  · rintro v ⟨hv, hunique⟩
    exact ⟨fun f hf g hg ↦ hunique f (hv.mem_container hf) g (hv.mem_container hg), hv.visible⟩
  · intro f hf
    cases hf

theorem onePerTab_of_notQueued_back :
    StatesMeet step OnePerTab {}
      [.setAdapter [⟨true⟩, ⟨true⟩], .setCurrentItem 0, .setCurrentItem 1, .execute,
        .setCurrentItem 0, .execute, .execute] := by
  apply onePerTab_of_notQueued
  decide

/-- Back to the first tab before its fragment is added. -/
theorem not_onePerTab_back :
    ∃ v, run step {} [.setAdapter [⟨true⟩, ⟨true⟩], .setCurrentItem 0, .setCurrentItem 1,
        .setCurrentItem 0, .execute, .execute, .execute] = some v ∧ ¬ v.OnePerTab := by
  have hruns : (run step {} [.setAdapter [⟨true⟩, ⟨true⟩], .setCurrentItem 0, .setCurrentItem 1,
      .setCurrentItem 0, .execute, .execute, .execute]).any (fun v ↦
        decide (⟨0, 0⟩ ∈ v.manager.executed.container.added ∧
          ⟨0, 2⟩ ∈ v.manager.executed.container.added)) = true := by
    decide
  obtain ⟨v, hrun, hfirst, hsecond⟩ := exists_run_of_any hruns
  refine ⟨v, hrun, fun hone ↦ ?_⟩
  cases hone.one _ hfirst _ hsecond rfl

end HiFragmentTabView

end HiApp.Tab
