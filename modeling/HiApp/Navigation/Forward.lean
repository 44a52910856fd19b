import HiApp.Navigation.Overlap
import Mathlib.Data.List.Nodup

/-!
# Only forward

Where nothing goes back, a fragment stays in the container once it has been added.  The
navigator then finds the fragment of a page again, unless it is still on its way.
-/

namespace HiApp.Navigation

open Runs FragmentManager

theorem added_execAll (c : Container Fragment) (t : Transaction) :
    (c.execAll t.ops).added =
      if t.adds = true ∧ t.shows ∉ c.added then c.added ++ [t.shows] else c.added := by
  obtain ⟨hadded, -, -⟩ := c.execAll_hide t.hides
  rw [execAll_ops]
  cases hadds : t.adds with
  | false => simpa [Container.exec] using hadded
  | true =>
      by_cases hmem : t.shows ∈ c.added
      · simp [Container.exec, hadded, hmem]
      · simp [Container.exec, hadded, hmem]

namespace HiFragmentNavigator

variable {graph : Graph} {ids : Set ℤ} {n n' : HiFragmentNavigator} {destId : ℤ} {tag : String}
  {reuse : Option Fragment}

/-- All that has been asked for is there. -/
def Calm (n : HiFragmentNavigator) : Prop :=
  ∀ f ∈ n.manager.settled.container.added, f ∈ n.added

instance (n : HiFragmentNavigator) : Decidable n.Calm :=
  inferInstanceAs (Decidable (∀ f ∈ n.manager.settled.container.added, f ∈ n.added))

/-- The classes of the destinations have names of their own, and so do their tags. -/
structure Tagged (graph : Graph) (ids : Set ℤ) : Prop where
  named : ∀ id ∈ ids, graph.className id ≠ ""
  distinct : ∀ id ∈ ids, ∀ id' ∈ ids,
    simpleName (graph.resolve id) = simpleName (graph.resolve id') →
      graph.resolve id = graph.resolve id'

/-- What holds of a navigator that has only gone forward, to some of the destinations. -/
structure Forward (graph : Graph) (ids : Set ℤ) (n : HiFragmentNavigator) : Prop where
  follows : Follows n.manager.settled n.mBackStack
  commits : ∀ p ∈ n.manager.pending, p.IsCommit
  recorded : ∀ r ∈ n.manager.executed.backStack, ∀ f,
    .hide f ∈ r.ops ∨ .show f ∈ r.ops → f ∈ n.added
  queued : ∀ ops name, .commit ops name ∈ n.manager.pending → ∀ f,
    .hide f ∈ ops ∨ .show f ∈ ops → f ∈ n.added ∨ .add f ∈ ops
  late : ∀ f ∈ n.manager.settled.container.added, f ∉ n.added →
    n.manager.settled.container.hidden f = false
  classes : ∀ f ∈ n.manager.settled.container.added, ∃ id ∈ ids, f.className = graph.resolve id

theorem forward_init : Forward graph ids {} where
  follows := ⟨rfl, by simp [Manager.settled], by simp [Manager.settled]⟩
  commits p hp := by cases hp
  recorded r hr := by cases hr
  queued ops name hp := by cases hp
  late f hf := by cases hf
  classes f hf := by cases hf

/-- One fragment is visible, of the class of the top destination, and no class has two. -/
structure ShowsOneTop (graph : Graph) (n : HiFragmentNavigator) : Prop where
  showsTop : n.ShowsTop graph
  once : (n.manager.settled.container.added.map (·.className)).Nodup

theorem showsOneTop_init : ShowsOneTop graph {} where
  showsTop := ⟨rfl, fun _ htop ↦ nomatch htop⟩
  once := List.nodup_nil

/-- It depends on what is settled and on the destinations alone. -/
theorem ShowsOneTop.of_settled (h : n.ShowsOneTop graph)
    (hsettled : n'.manager.settled = n.manager.settled) (hstack : n'.mBackStack = n.mBackStack) :
    n'.ShowsOneTop graph := by
  obtain ⟨⟨hcrashed, hvisible⟩, honce⟩ := h
  rw [← hsettled] at hcrashed hvisible honce
  rw [← hstack] at hvisible
  exact ⟨⟨hcrashed, hvisible⟩, honce⟩

@[simp] theorem ground_false (n : HiFragmentNavigator) (destId : ℤ) :
    n.ground destId false = n.manager.settled := by
  simp [ground]

/-- A navigation that is not refused queues one transaction. -/
theorem navigate_eq (reuse : Option Fragment)
    (h : ¬ (n.stateSaved = true ∨ graph.className destId = "")) :
    ∃ name, n.navigate graph destId false reuse =
      { n with
        instances := n.instances + 1
        manager := n.manager.enqueue (.commit (n.transaction graph destId reuse).ops name)
        mBackStack := destId :: n.mBackStack } := by
  rw [navigate, if_neg h]
  cases hstack : n.mBackStack with
  | nil => exact ⟨none, by simp⟩
  | cons top rest => exact ⟨some (n.mBackStack.length + 1, destId), by simp [hstack]⟩

namespace Forward

theorem added_subset (h : Forward graph ids n) {f : Fragment} (hf : f ∈ n.added) :
    f ∈ n.manager.settled.container.added :=
  (Manager.mem_added_settled h.commits).mpr (.inl hf)

/-- Every fragment that the manager knows is added. -/
theorem reuse_eq_none (h : Forward graph ids n) (hknows : n.Knows tag reuse) : reuse = none := by
  rw [Option.eq_none_iff_forall_ne_some]
  intro f hf
  obtain ⟨hnot, -, r, hr, hops⟩ := hknows f hf
  exact hnot (h.recorded r hr f hops)

theorem findFragmentByTag_eq_some {f : Fragment}
    (hfound : n.findFragmentByTag tag none = some f) :
    f ∈ n.added ∧ simpleName f.className = tag := by
  rw [findFragmentByTag, Option.or_none] at hfound
  exact ⟨List.mem_reverse.mp (List.mem_of_find?_eq_some hfound),
    by simpa using List.find?_some hfound⟩

/-- The fragment of a page is found again, or it is a new one. -/
theorem target_cases (h : Forward graph ids n) (htagged : Tagged graph ids) (hid : destId ∈ ids) :
    (n.target graph destId none).className = graph.resolve destId ∧
      (n.target graph destId none ∉ n.added →
        ∀ f ∈ n.added, f.className ≠ graph.resolve destId) := by
  unfold target
  cases hfound : n.findFragmentByTag (simpleName (graph.resolve destId)) none with
  | some f =>
      obtain ⟨hmem, htag⟩ := findFragmentByTag_eq_some hfound
      obtain ⟨id, hid', hclass⟩ := h.classes f (h.added_subset hmem)
      refine ⟨?_, fun hnot ↦ absurd hmem hnot⟩
      rw [hclass] at htag
      exact hclass.trans (htagged.distinct id hid' destId hid htag)
  | none =>
      refine ⟨rfl, fun _ f hf hclass ↦ ?_⟩
      rw [findFragmentByTag, Option.or_none, List.find?_eq_none] at hfound
      exact hfound f (List.mem_reverse.mpr hf) (decide_eq_true (congrArg simpleName hclass))

theorem navigate (h : Forward graph ids n) (htagged : Tagged graph ids) (hid : destId ∈ ids) :
    Forward graph ids (n.navigate graph destId false none) := by
  by_cases hignored : n.stateSaved = true ∨ graph.className destId = ""
  · rw [navigate_of_ignored false none hignored]
    exact h
  obtain ⟨name, hnavigate⟩ := navigate_eq none hignored
  have hfollows : Follows (n.navigate graph destId false none).manager.settled
      (n.navigate graph destId false none).mBackStack :=
    follows_navigate h.follows destId false none
  rw [hnavigate] at hfollows ⊢
  have hsettled : (n.manager.enqueue
      (.commit (n.transaction graph destId none).ops name)).settled.container =
        n.manager.settled.container.execAll (n.transaction graph destId none).ops := by
    rw [Manager.settled_enqueue, Executed.execute]
  refine ⟨hfollows, ?_, h.recorded, ?_, ?_, ?_⟩
  · intro p hp
    rcases List.mem_append.mp hp with hp | hp
    · exact h.commits p hp
    · obtain rfl := List.mem_singleton.mp hp
      trivial
  · intro ops name' hp f hf
    rcases List.mem_append.mp hp with hp | hp
    · exact h.queued ops name' hp f hf
    · obtain ⟨rfl, -⟩ := Pending.commit.inj (List.mem_singleton.mp hp)
      rw [Transaction.hide_mem_ops, Transaction.show_mem_ops] at hf
      by_cases hmem : f ∈ n.added
      · exact .inl hmem
      · have hshows : f = n.target graph destId none := hf.resolve_left hmem
        refine .inr (Transaction.add_mem_ops.mpr ⟨?_, hshows⟩)
        exact decide_eq_true (hshows ▸ hmem)
  · intro f hf hnot
    rw [hsettled] at hf ⊢
    rw [hidden_execAll]
    rcases mem_added_execAll.mp hf with hf | ⟨-, hshows⟩
    · exact .inr ⟨hnot, h.late f hf hnot⟩
    · exact .inl hshows
  · intro f hf
    rw [hsettled] at hf
    rcases mem_added_execAll.mp hf with hf | ⟨-, rfl⟩
    · exact h.classes f hf
    · exact ⟨destId, hid, (h.target_cases htagged hid).1⟩

theorem executeNext (h : Forward graph ids n) {manager : Manager Fragment (ℕ × ℤ)}
    (hnext : n.manager.executeNext = some manager) : Forward graph ids { n with manager } := by
  have hsettled := Manager.settled_executeNext hnext
  unfold Manager.executeNext at hnext
  split at hnext
  · cases hnext
  rename_i p ps hpending
  obtain rfl := Option.some.inj hnext
  have hmem : p ∈ n.manager.pending := hpending ▸ List.mem_cons_self
  cases p with
  | popBackStack name => exact absurd (h.commits _ hmem) id
  | commit ops name =>
      have hadded : ∀ f, f ∈ (n.manager.executed.execute (.commit ops name)).container.added ↔
          f ∈ n.added ∨ .add f ∈ ops := fun f ↦ Container.mem_added_execAll
      refine ⟨?_, ?_, ?_, ?_, ?_, ?_⟩
      · rw [hsettled]
        exact h.follows
      · exact fun p hp ↦ h.commits p (hpending ▸ List.mem_cons_of_mem _ hp)
      · intro r hr f hf
        refine (hadded f).mpr ?_
        rcases List.mem_append.mp hr with hr | hr
        · obtain ⟨name', -, rfl⟩ := Option.map_eq_some_iff.mp (Option.mem_toList.mp hr)
          exact h.queued ops name hmem f hf
        · exact .inl (h.recorded r hr f hf)
      · intro ops' name' hp f hf
        have hp' := h.queued ops' name' (hpending ▸ List.mem_cons_of_mem _ hp) f hf
        exact hp'.imp_left fun hf ↦ (hadded f).mpr (.inl hf)
      · rw [hsettled]
        intro f hf hnot
        exact h.late f hf fun hmem ↦ hnot ((hadded f).mpr (.inl hmem))
      · rw [hsettled]
        exact h.classes

theorem setStateSaved (h : Forward graph ids n) (stateSaved : Bool) :
    Forward graph ids { n with stateSaved } :=
  ⟨h.follows, h.commits, h.recorded, h.queued, h.late, h.classes⟩

/-- A navigation leaves one fragment visible exactly when no other is on its way. -/
theorem leavesOne_iff (h : Forward graph ids n) (htagged : Tagged graph ids) (hid : destId ∈ ids) :
    n.LeavesOne graph (.navigate destId false none) ↔ (n.stateSaved = false → n.Calm) := by
  have hclass := (h.target_cases htagged hid).1
  simp only [LeavesOne, ground_false, htagged.named destId hid, ne_eq, not_false_eq_true,
    true_imp_iff]
  refine imp_congr_right fun _ ↦ ?_
  constructor
  · rintro (⟨-, hsame, hvisible⟩ | ⟨hmem, hnot, -⟩) f hf
    · by_contra hnot
      -- what is on its way will not be hidden, so that it has to be the target
      obtain rfl := (hvisible f hf (h.late f hf hnot)).resolve_right hnot
      exact hnot (hsame.mpr hf)
    · exact absurd (h.added_subset hmem) hnot
  · intro hcalm
    exact .inl ⟨hclass, ⟨h.added_subset, hcalm _⟩, fun g hg _ ↦ .inr (hcalm g hg)⟩

theorem once_navigate (h : Forward graph ids n) (htagged : Tagged graph ids) (hid : destId ∈ ids)
    (honce : (n.manager.settled.container.added.map (·.className)).Nodup)
    (hcalm : n.stateSaved = false → n.Calm) :
    ((n.navigate graph destId false none).manager.settled.container.added.map
      (·.className)).Nodup := by
  by_cases hignored : n.stateSaved = true ∨ graph.className destId = ""
  · rw [navigate_of_ignored false none hignored]
    exact honce
  obtain ⟨hcontainer, -⟩ := settled_navigate false none hignored
  rw [hcontainer, ground_false, added_execAll]
  split
  · rename_i hadds
    obtain ⟨hclass, hnew⟩ := h.target_cases htagged hid
    have hsaved := Bool.eq_false_iff.mpr (not_or.mp hignored).1
    have hclasses := hnew (of_decide_eq_true hadds.1)
    rw [List.map_append, List.nodup_append]
    refine ⟨honce, List.nodup_singleton _, ?_⟩
    intro c hc c' hc' heq
    obtain ⟨f, hf, rfl⟩ := List.mem_map.mp hc
    obtain rfl := List.mem_singleton.mp hc'
    exact hclasses f (hcalm hsaved f hf) (heq.trans hclass)
  · exact honce

theorem showsOneTop_navigate (h : Forward graph ids n) (htagged : Tagged graph ids)
    (hid : destId ∈ ids) (hshows : n.ShowsOneTop graph) :
    (n.navigate graph destId false none).ShowsOneTop graph ↔ (n.stateSaved = false → n.Calm) := by
  rw [← h.leavesOne_iff htagged hid, ← showsTop_navigate h.follows hshows.showsTop]
  constructor
  · exact ShowsOneTop.showsTop
  · intro htop
    refine ⟨htop, h.once_navigate htagged hid hshows.once ?_⟩
    exact (h.leavesOne_iff htagged hid).mp
      ((showsTop_navigate h.follows hshows.showsTop destId false none).mp htop)

end Forward

end HiFragmentNavigator

end HiApp.Navigation
