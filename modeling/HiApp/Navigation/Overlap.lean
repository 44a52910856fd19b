import HiApp.Navigation.HiFragmentNavigator

/-!
# Fragments that overlap

A navigation hides everything that is in the container, so that fragments do not overlap.
Undoing it shows all of these again, also those that had been hidden before.  A navigation
that is made while others are still pending does not know their fragments and does not hide
them.
-/

namespace HiApp.Navigation

open Runs FragmentManager

namespace Transaction

variable {t : Transaction} {g : Fragment}

@[simp] theorem hide_mem_ops : Op.hide g ∈ t.ops ↔ g ∈ t.hides := by
  cases hadds : t.adds <;> simp [ops, hadds]

@[simp] theorem add_mem_ops : Op.add g ∈ t.ops ↔ t.adds = true ∧ g = t.shows := by
  cases hadds : t.adds <;> simp [ops, hadds]

@[simp] theorem show_mem_ops : Op.show g ∈ t.ops ↔ g = t.shows := by
  cases hadds : t.adds <;> simp [ops, hadds]

end Transaction

section

variable {c : Container Fragment} {t : Transaction} {g : Fragment}

theorem execAll_ops (c : Container Fragment) (t : Transaction) :
    c.execAll t.ops =
      let inner := c.execAll (t.hides.map .hide)
      (if t.adds then inner.exec (.add t.shows) else inner).exec (.show t.shows) := by
  cases hadds : t.adds <;> simp [Transaction.ops, Container.execAll, hadds]

theorem crashed_execAll (c : Container Fragment) (t : Transaction) :
    (c.execAll t.ops).crashed =
      (c.crashed || (t.adds && decide (t.shows ∈ c.added))) := by
  obtain ⟨hadded, hcrashed, -⟩ := c.execAll_hide t.hides
  rw [execAll_ops]
  cases hadds : t.adds with
  | false => simpa [Container.exec] using hcrashed
  | true =>
      by_cases hmem : t.shows ∈ c.added
      · simp [Container.exec, hadded, hmem]
      · simpa [Container.exec, hadded, hmem] using hcrashed

theorem mem_added_execAll :
    g ∈ (c.execAll t.ops).added ↔ g ∈ c.added ∨ t.adds = true ∧ g = t.shows := by
  obtain ⟨hadded, -, -⟩ := c.execAll_hide t.hides
  rw [execAll_ops]
  cases hadds : t.adds with
  | false => simp [Container.exec, hadded]
  | true =>
      by_cases hmem : t.shows ∈ c.added
      · have hg : g = t.shows → g ∈ c.added := fun h ↦ h ▸ hmem
        simpa [Container.exec, hadded, hmem] using hg
      · simp [Container.exec, hadded, hmem]

theorem hidden_execAll :
    (c.execAll t.ops).hidden g = false ↔ g = t.shows ∨ g ∉ t.hides ∧ c.hidden g = false := by
  obtain ⟨-, -, hhidden⟩ := c.execAll_hide t.hides
  have hshow : (c.execAll t.ops).hidden =
      Function.update (c.execAll (t.hides.map .hide)).hidden t.shows false := by
    rw [execAll_ops]
    cases hadds : t.adds with
    | false => rfl
    | true =>
        simp only [Container.exec, if_true]
        split <;> rfl
  rw [hshow]
  by_cases hg : g = t.shows
  · simp [hg]
  · simp [hg, hhidden]

/-- A transaction leaves visible what it shows, provided this is in the container, and what
it does not hide. -/
theorem visible_execAll :
    (c.execAll t.ops).Visible g ↔
      g = t.shows ∧ (t.shows ∈ c.added ∨ t.adds = true) ∨
        g ≠ t.shows ∧ c.Visible g ∧ g ∉ t.hides := by
  unfold Container.Visible
  rw [mem_added_execAll, hidden_execAll]
  by_cases hg : g = t.shows
  · simp [hg]
  · simp only [hg, and_false, or_false, false_or, ne_eq, not_false_eq_true, true_and,
      false_and]
    tauto

/-- The fragments that are visible afterwards when what is shown is present. -/
theorem exists_visible_execAll_iff_of_present {p : Fragment → Prop}
    (hpresent : t.shows ∈ c.added ∨ t.adds = true) :
    (∃ x, p x ∧ ∀ g, (c.execAll t.ops).Visible g ↔ g = x) ↔
      p t.shows ∧ ∀ g ∈ c.added, c.hidden g = false → g = t.shows ∨ g ∈ t.hides := by
  constructor
  · rintro ⟨x, hx, hvisible⟩
    have hshows : t.shows = x := (hvisible t.shows).mp (visible_execAll.mpr (.inl ⟨rfl, hpresent⟩))
    refine ⟨hshows ▸ hx, ?_⟩
    intro g hg hhidden
    by_contra hnot
    obtain ⟨hne, hmem⟩ := not_or.mp hnot
    have hvis := visible_execAll.mpr (.inr ⟨hne, ⟨hg, hhidden⟩, hmem⟩)
    exact hne (((hvisible g).mp hvis).trans hshows.symm)
  · rintro ⟨hp, hall⟩
    refine ⟨t.shows, hp, fun g ↦ visible_execAll.trans ?_⟩
    constructor
    · rintro (⟨hg, -⟩ | ⟨hne, hvis, hmem⟩)
      · exact hg
      · exact absurd ((hall g hvis.1 hvis.2).resolve_left hne) hmem
    · exact fun hg ↦ .inl ⟨hg, hpresent⟩

/-- When it is not, they are those that the transaction does not hide. -/
theorem exists_visible_execAll_iff_of_absent {p : Fragment → Prop}
    (habsent : t.shows ∉ c.added) (hadds : t.adds = false) :
    (∃ x, p x ∧ ∀ g, (c.execAll t.ops).Visible g ↔ g = x) ↔
      ∃ x ∈ c.added, p x ∧ ∀ g ∈ c.added, c.hidden g = false ∧ g ∉ t.hides ↔ g = x := by
  have hvisible : ∀ g, (c.execAll t.ops).Visible g ↔
      g ∈ c.added ∧ c.hidden g = false ∧ g ∉ t.hides := by
    intro g
    have hne : g ∈ c.added → g ≠ t.shows := fun hg heq ↦ habsent (heq ▸ hg)
    rw [visible_execAll, hadds]
    unfold Container.Visible
    tauto
  simp only [hvisible]
  constructor
  · rintro ⟨x, hx, hiff⟩
    refine ⟨x, ((hiff x).mpr rfl).1, hx, fun g hg ↦ ?_⟩
    rw [← hiff g]
    exact (and_iff_right hg).symm
  · rintro ⟨x, hmem, hx, hiff⟩
    refine ⟨x, hx, fun g ↦ ⟨fun hg ↦ (hiff g hg.1).mp hg.2, ?_⟩⟩
    rintro rfl
    exact ⟨hmem, (hiff g hmem).mpr rfl⟩

/-- A transaction that hides what is present at the time of the call, and adds what it shows
if this is not among them. -/
theorem exists_visible_execAll_iff {p : Fragment → Prop}
    (hadds : t.adds = decide (t.shows ∉ t.hides)) (hcrashed : c.crashed = false) :
    ((c.execAll t.ops).crashed = false ∧ ∃ x, p x ∧ ∀ g, (c.execAll t.ops).Visible g ↔ g = x) ↔
      p t.shows ∧ (t.shows ∈ t.hides ↔ t.shows ∈ c.added) ∧
          (∀ g ∈ c.added, c.hidden g = false → g = t.shows ∨ g ∈ t.hides) ∨
        t.shows ∈ t.hides ∧ t.shows ∉ c.added ∧
          ∃ x ∈ c.added, p x ∧ ∀ g ∈ c.added, c.hidden g = false ∧ g ∉ t.hides ↔ g = x := by
  rw [crashed_execAll, hcrashed, hadds]
  by_cases hhides : t.shows ∈ t.hides
  · by_cases hpresent : t.shows ∈ c.added
    · simp [hhides, hpresent, exists_visible_execAll_iff_of_present (.inl hpresent)]
    · have hfalse : t.adds = false := by
        simp [hadds, hhides]
      simp [hhides, hpresent, exists_visible_execAll_iff_of_absent hpresent hfalse]
  · by_cases hpresent : t.shows ∈ c.added
    · simp [hhides, hpresent]
    · have htrue : t.adds = true := by
        simp [hadds, hhides]
      simp [hhides, hpresent, exists_visible_execAll_iff_of_present (.inr htrue)]

theorem undoAll_ops (c : Container Fragment) (t : Transaction) :
    c.undoAll t.ops =
      let inner := c.undo (.show t.shows)
      (if t.adds then inner.undo (.add t.shows) else inner).undoAll (t.hides.map .hide) := by
  cases hadds : t.adds <;> simp [Transaction.ops, Container.undoAll, hadds]

@[simp] theorem crashed_undoAll (c : Container Fragment) (t : Transaction) :
    (c.undoAll t.ops).crashed = c.crashed := by
  rw [undoAll_ops]
  cases hadds : t.adds with
  | false => exact (Container.undoAll_hide _ t.hides).2.1
  | true => exact (Container.undoAll_hide _ t.hides).2.1

/-- The fragments that are visible once the operations have been undone: all that they had
hidden, and what is visible besides the one that they had shown. -/
def Returns (c : Container Fragment) (ops : List (Op Fragment)) (g : Fragment) : Prop :=
  g ∈ c.added ∧ .add g ∉ ops ∧ (.hide g ∈ ops ∨ .show g ∉ ops ∧ c.hidden g = false)

instance (c : Container Fragment) (ops : List (Op Fragment)) (g : Fragment) :
    Decidable (Returns c ops g) :=
  inferInstanceAs (Decidable (_ ∧ _ ∧ _))

theorem added_undoAll (c : Container Fragment) (t : Transaction) :
    (c.undoAll t.ops).added = if t.adds then c.added.erase t.shows else c.added := by
  rw [undoAll_ops]
  cases hadds : t.adds with
  | false => exact (Container.undoAll_hide _ t.hides).1
  | true => exact (Container.undoAll_hide _ t.hides).1

theorem hidden_undoAll :
    (c.undoAll t.ops).hidden g = false ↔
      g ∈ t.hides ∨ g ≠ t.shows ∧ c.hidden g = false := by
  have hhide : (c.undoAll t.ops).hidden g =
      (decide (g ∉ t.hides) && Function.update c.hidden t.shows true g) := by
    rw [undoAll_ops]
    cases hadds : t.adds with
    | false => exact (Container.undoAll_hide _ t.hides).2.2 g
    | true => exact (Container.undoAll_hide _ t.hides).2.2 g
  rw [hhide]
  by_cases hg : g = t.shows
  · simp [hg]
  · by_cases hmem : g ∈ t.hides <;> simp [hg, hmem]

theorem visible_undoAll (hnodup : c.added.Nodup) :
    (c.undoAll t.ops).Visible g ↔ Returns c t.ops g := by
  unfold Container.Visible Returns
  rw [added_undoAll, hidden_undoAll]
  simp only [Transaction.hide_mem_ops, Transaction.add_mem_ops, Transaction.show_mem_ops]
  cases hadds : t.adds with
  | false => simp
  | true =>
      simp only [if_true, hnodup.mem_erase_iff, true_and]
      tauto

theorem exists_visible_undoAll_iff (hnodup : c.added.Nodup) {p : Fragment → Prop} :
    (∃ x, p x ∧ ∀ g, (c.undoAll t.ops).Visible g ↔ g = x) ↔
      ∃ x ∈ c.added, p x ∧ ∀ g ∈ c.added, Returns c t.ops g ↔ g = x := by
  simp only [visible_undoAll hnodup]
  constructor
  · rintro ⟨x, hx, hiff⟩
    exact ⟨x, ((hiff x).mpr rfl).1, hx, fun g _ ↦ hiff g⟩
  · rintro ⟨x, hmem, hx, hiff⟩
    refine ⟨x, hx, fun g ↦ ⟨fun hg ↦ (hiff g hg.1).mp hg, ?_⟩⟩
    rintro rfl
    exact (hiff g hmem).mpr rfl

theorem nodup_execAll (hnodup : c.added.Nodup) : (c.execAll t.ops).added.Nodup := by
  obtain ⟨hadded, -, -⟩ := c.execAll_hide t.hides
  rw [execAll_ops]
  cases hadds : t.adds with
  | false => simpa [Container.exec, hadded] using hnodup
  | true =>
      by_cases hmem : t.shows ∈ c.added
      · simpa [Container.exec, hadded, hmem] using hnodup
      · simpa [Container.exec, hadded, hmem, List.nodup_append] using
          ⟨hnodup, fun f hf heq ↦ hmem (heq ▸ hf)⟩

theorem nodup_undoAll (hnodup : c.added.Nodup) : (c.undoAll t.ops).added.Nodup := by
  rw [added_undoAll]
  cases hadds : t.adds with
  | false => exact hnodup
  | true => exact hnodup.erase t.shows

end

/-- The names of the entries on the manager's back stack: the first destination has none. -/
def namesOf : List ℤ → List (ℕ × ℤ)
  | [] => []
  | [_] => []
  | top :: below :: rest => (rest.length + 2, top) :: namesOf (below :: rest)

theorem fst_le_of_mem_namesOf {l : List ℤ} {name : ℕ × ℤ} (h : name ∈ namesOf l) :
    name.1 ≤ l.length := by
  induction l using namesOf.induct with
  | case1 => cases h
  | case2 => cases h
  | case3 top below rest ih =>
      rcases List.mem_cons.mp h with rfl | h
      · exact Nat.le_refl _
      · exact Nat.le_trans (ih h) (Nat.le_succ _)

/-- The manager's back stack follows `mBackStack`. -/
structure Follows (e : Executed Fragment (ℕ × ℤ)) (mBackStack : List ℤ) : Prop where
  names : e.backStack.map Record.name = namesOf mBackStack
  ops : ∀ r ∈ e.backStack, ∃ t : Transaction, r.ops = t.ops
  nodup : e.container.added.Nodup

namespace Follows

variable {e : Executed Fragment (ℕ × ℤ)} {top below : ℤ} {l rest : List ℤ}

theorem popBackStack_singleton (h : Follows e [top]) (name : ℕ × ℤ) :
    e.popBackStack name = e := by
  have hnil : e.backStack = [] := List.map_eq_nil_iff.mp h.names
  apply Executed.popBackStack_of_forall_ne
  simp [hnil]

/-- Popping the name of the top destination undoes the entry of this destination only: the
names of the entries below have smaller numbers. -/
theorem exists_top (h : Follows e (top :: below :: rest)) :
    ∃ r rs, ∃ t : Transaction, e.backStack = r :: rs ∧ r.ops = t.ops ∧
      rs.map Record.name = namesOf (below :: rest) ∧
      e.popBackStack (rest.length + 2, top) =
        { container := e.container.undoAll t.ops, backStack := rs } := by
  obtain ⟨r, rs, hcons, hname, hnames⟩ := List.map_eq_cons_iff.mp h.names
  obtain ⟨t, ht⟩ := h.ops r (hcons ▸ List.mem_cons_self)
  have hne : ∀ r' ∈ rs, r'.name ≠ (rest.length + 2, top) := by
    intro r' hr' heq
    have hle := fst_le_of_mem_namesOf (hnames ▸ List.mem_map_of_mem hr')
    rw [heq, List.length_cons] at hle
    exact absurd hle (by simp)
  refine ⟨r, rs, t, hcons, ht, hnames, ?_⟩
  have he : e = { container := e.container, backStack := r :: rs } := by
    rw [← hcons]
  rw [he, Executed.popBackStack_cons hname hne, ht]

theorem popBackStack (h : Follows e (top :: rest)) :
    Follows (e.popBackStack (rest.length + 1, top)) rest := by
  cases rest with
  | nil =>
      rw [h.popBackStack_singleton]
      exact ⟨h.names, h.ops, h.nodup⟩
  | cons below rest =>
      obtain ⟨r, rs, t, hcons, -, hnames, hpop⟩ := h.exists_top
      rw [List.length_cons, hpop]
      refine ⟨hnames, ?_, nodup_undoAll h.nodup⟩
      intro r' hr'
      exact h.ops r' (hcons ▸ List.mem_cons_of_mem r hr')

theorem commit_none (h : Follows e l) (t : Transaction) {l' : List ℤ}
    (hnames : namesOf l' = namesOf l) : Follows (e.execute (.commit t.ops none)) l' :=
  ⟨h.names.trans hnames.symm, h.ops, nodup_execAll h.nodup⟩

theorem commit_some (h : Follows e (below :: rest)) (t : Transaction) (destId : ℤ) :
    Follows (e.execute (.commit t.ops (some (rest.length + 2, destId))))
      (destId :: below :: rest) where
  names := congrArg ((rest.length + 2, destId) :: ·) h.names
  ops := by
    intro r hr
    rcases List.mem_cons.mp hr with rfl | hr
    · exact ⟨t, rfl⟩
    · exact h.ops r hr
  nodup := nodup_execAll h.nodup

end Follows

namespace HiFragmentNavigator

variable {graph : Graph} {n n' : HiFragmentNavigator}

/-- The container that the transaction of a navigation meets.  A single-top navigation has
the entry of the destination popped first. -/
def ground (n : HiFragmentNavigator) (destId : ℤ) (singleTop : Bool) : Executed Fragment (ℕ × ℤ) :=
  if singleTop = true ∧ n.mBackStack.head? = some destId ∧ 1 < n.mBackStack.length then
    n.manager.settled.popBackStack (n.mBackStack.length, destId)
  else n.manager.settled

/-- The condition under which a call leaves one fragment visible.

A navigation finds a fragment of the right class or none, and this fragment and everything
visible is in the container when the call is made as it is when the transaction is carried
out; or the fragment has left in the meantime, and another one of the right class is not
hidden.  When a transaction is undone, one of the fragments that it had hidden is left, and
it is of the class of the destination below. -/
def LeavesOne (graph : Graph) (n : HiFragmentNavigator) : Action → Prop
  | .navigate destId singleTop reuse =>
      n.stateSaved = false → graph.className destId ≠ "" →
        (n.target graph destId reuse).className = graph.resolve destId ∧
          (n.target graph destId reuse ∈ n.added ↔
            n.target graph destId reuse ∈ (n.ground destId singleTop).container.added) ∧
          (∀ g ∈ (n.ground destId singleTop).container.added,
            (n.ground destId singleTop).container.hidden g = false →
              g = n.target graph destId reuse ∨ g ∈ n.added) ∨
        n.target graph destId reuse ∈ n.added ∧
          n.target graph destId reuse ∉ (n.ground destId singleTop).container.added ∧
          ∃ x ∈ (n.ground destId singleTop).container.added,
            x.className = graph.resolve destId ∧
              ∀ g ∈ (n.ground destId singleTop).container.added,
                (n.ground destId singleTop).container.hidden g = false ∧ g ∉ n.added ↔ g = x
  | .popBackStack =>
      n.stateSaved = false → ∀ r ∈ n.manager.settled.backStack.head?,
        ∀ below ∈ n.mBackStack.tail.head?,
          ∃ x ∈ n.manager.settled.container.added, x.className = graph.resolve below ∧
            ∀ g ∈ n.manager.settled.container.added,
              Returns n.manager.settled.container r.ops g ↔ g = x
  | .executeNext => True
  | .setStateSaved _ => True

instance (n : HiFragmentNavigator) (a : Action) : Decidable (n.LeavesOne graph a) :=
  match a with
  | .navigate _ _ _ => inferInstanceAs (Decidable (_ → _ → _))
  | .popBackStack => inferInstanceAs (Decidable (_ → _))
  | .executeNext | .setStateSaved _ => isTrue trivial

/-! What a call makes of the settled state. -/

theorem navigate_of_ignored {destId : ℤ} (singleTop : Bool) (reuse : Option Fragment)
    (h : n.stateSaved = true ∨ graph.className destId = "") :
    n.navigate graph destId singleTop reuse = n := by
  rw [navigate, if_pos h]

theorem settled_navigate {destId : ℤ} (singleTop : Bool) (reuse : Option Fragment)
    (h : ¬ (n.stateSaved = true ∨ graph.className destId = "")) :
    (n.navigate graph destId singleTop reuse).manager.settled.container =
        (n.ground destId singleTop).container.execAll (n.transaction graph destId reuse).ops ∧
      (n.navigate graph destId singleTop reuse).mBackStack.head? = some destId := by
  rw [navigate, if_neg h]
  cases hstack : n.mBackStack with
  | nil => simp [ground, hstack, Executed.execute]
  | cons top rest =>
      by_cases htop : singleTop = true ∧ top = destId
      · obtain ⟨hsingle, rfl⟩ := htop
        by_cases hrest : rest = []
        · simp [ground, hstack, hsingle, hrest, Executed.execute]
        · have hpos : 0 < rest.length := List.length_pos_of_ne_nil hrest
          simp [ground, hstack, hsingle, hrest, hpos, Executed.execute]
      · have hground : n.ground destId singleTop = n.manager.settled := by
          apply if_neg
          rw [hstack]
          exact fun hg ↦ htop ⟨hg.1, Option.some.inj hg.2.1⟩
        simp [hground, htop, Executed.execute]

theorem follows_navigate (h : Follows n.manager.settled n.mBackStack) (destId : ℤ)
    (singleTop : Bool) (reuse : Option Fragment) :
    Follows (n.navigate graph destId singleTop reuse).manager.settled
      (n.navigate graph destId singleTop reuse).mBackStack := by
  unfold navigate
  split
  · exact h
  · cases hstack : n.mBackStack with
    | nil =>
        rw [hstack] at h
        have hnames : namesOf [destId] = namesOf [] := rfl
        simpa using h.commit_none (n.transaction graph destId reuse) hnames
    | cons top rest =>
        rw [hstack] at h
        dsimp only
        split
        · rename_i htop
          obtain ⟨-, rfl⟩ := htop
          cases rest with
          | nil => simpa using h.commit_none (n.transaction graph top reuse) rfl
          | cons below rest =>
              simpa [Executed.execute] using
                h.popBackStack.commit_some (n.transaction graph top reuse) top
        · simpa using h.commit_some (n.transaction graph destId reuse) destId

theorem follows_popBackStack (h : Follows n.manager.settled n.mBackStack) :
    Follows n.popBackStack.manager.settled n.popBackStack.mBackStack := by
  unfold popBackStack
  split
  · rename_i hstack
    rw [hstack] at h ⊢
    exact h
  · rename_i top rest hstack
    rw [hstack] at h
    split
    · rw [hstack]
      exact h
    · simpa [Executed.execute, hstack] using h.popBackStack

theorem follows_step {a : Action} (h : Follows n.manager.settled n.mBackStack)
    (hstep : n.step graph a = some n') : Follows n'.manager.settled n'.mBackStack := by
  cases a with
  | navigate destId singleTop reuse =>
      obtain ⟨-, hnavigate⟩ := Option.ite_none_right_eq_some.mp hstep
      obtain rfl := Option.some.inj hnavigate
      exact follows_navigate h destId singleTop reuse
  | popBackStack =>
      obtain rfl := Option.some.inj hstep
      exact follows_popBackStack h
  | executeNext =>
      obtain ⟨m, hm, rfl⟩ := Option.map_eq_some_iff.mp hstep
      rw [Manager.settled_executeNext hm]
      exact h
  | setStateSaved stateSaved =>
      obtain rfl := Option.some.inj hstep
      exact h

/-! When a call keeps exactly one fragment visible. -/

theorem showsTop_iff_of_head {top : ℤ} (hhead : n.mBackStack.head? = some top) :
    n.ShowsTop graph ↔ n.manager.settled.container.crashed = false ∧
      ∃ x : Fragment, x.className = graph.resolve top ∧
        ∀ g, n.manager.settled.container.Visible g ↔ g = x := by
  constructor
  · intro h
    exact ⟨h.crashed, h.visible top hhead⟩
  · rintro ⟨hcrashed, hvisible⟩
    refine ⟨hcrashed, ?_⟩
    intro top' htop'
    obtain rfl : top = top' := Option.some.inj (hhead.symm.trans htop')
    exact hvisible

theorem crashed_ground (h : Follows n.manager.settled n.mBackStack) (destId : ℤ)
    (singleTop : Bool) : (n.ground destId singleTop).container.crashed =
      n.manager.settled.container.crashed := by
  unfold ground
  split
  · rename_i htop
    obtain ⟨-, hhead, hlength⟩ := htop
    obtain ⟨rest, hstack⟩ := List.head?_eq_some_iff.mp hhead
    cases rest with
    | nil => simp [hstack] at hlength
    | cons below rest =>
        rw [hstack] at h ⊢
        obtain ⟨r, rs, t, -, -, -, hpop⟩ := h.exists_top
        rw [List.length_cons, List.length_cons, hpop]
        exact crashed_undoAll _ t
  · rfl

theorem showsTop_navigate (h : Follows n.manager.settled n.mBackStack) (hshows : n.ShowsTop graph)
    (destId : ℤ) (singleTop : Bool) (reuse : Option Fragment) :
    (n.navigate graph destId singleTop reuse).ShowsTop graph ↔
      n.LeavesOne graph (.navigate destId singleTop reuse) := by
  by_cases hignored : n.stateSaved = true ∨ graph.className destId = ""
  · rw [navigate_of_ignored singleTop reuse hignored]
    refine iff_of_true hshows ?_
    intro hsaved hname
    rcases hignored with hignored | hignored
    · exact absurd (hignored.symm.trans hsaved) (by decide)
    · exact absurd hignored hname
  · obtain ⟨hcontainer, hhead⟩ := settled_navigate singleTop reuse hignored
    obtain ⟨hsaved, hname⟩ := not_or.mp hignored
    have hground : (n.ground destId singleTop).container.crashed = false :=
      (crashed_ground h destId singleTop).trans hshows.crashed
    have hcond : n.LeavesOne graph (.navigate destId singleTop reuse) ↔ _ :=
      (forall_prop_of_true (Bool.eq_false_iff.mpr hsaved)).trans (forall_prop_of_true hname)
    rw [showsTop_iff_of_head hhead, hcontainer, hcond]
    exact exists_visible_execAll_iff (t := n.transaction graph destId reuse) rfl hground

theorem showsTop_popBackStack (h : Follows n.manager.settled n.mBackStack)
    (hshows : n.ShowsTop graph) :
    n.popBackStack.ShowsTop graph ↔ n.LeavesOne graph .popBackStack := by
  rcases hstack : n.mBackStack with _ | ⟨top, _ | ⟨below, rest⟩⟩
  · have hpop : n.popBackStack = n := by
      simp [popBackStack, hstack]
    rw [hpop]
    refine iff_of_true hshows fun _ r _ below hbelow ↦ ?_
    simp [hstack] at hbelow
  · -- the first destination has no entry: its fragment stays
    refine iff_of_true ⟨?_, ?_⟩ fun _ r _ below hbelow ↦ ?_
    · rw [hstack] at h
      by_cases hsaved : n.stateSaved = true
      · simpa [popBackStack, hstack, hsaved] using hshows.crashed
      · simpa [popBackStack, hstack, hsaved, Executed.execute, h.popBackStack_singleton] using
          hshows.crashed
    · by_cases hsaved : n.stateSaved = true
      · simpa [popBackStack, hstack, hsaved] using hshows.visible
      · simp [popBackStack, hstack, hsaved]
    · simp [hstack] at hbelow
  · by_cases hsaved : n.stateSaved = true
    · have hpop : n.popBackStack = n := by
        simp [popBackStack, hstack, hsaved]
      rw [hpop]
      refine iff_of_true hshows fun hfalse ↦ ?_
      exact absurd (hsaved.symm.trans hfalse) (by decide)
    · rw [hstack] at h
      obtain ⟨r, rs, t, hcons, ht, -, hundo⟩ := h.exists_top
      have hhead : n.popBackStack.mBackStack.head? = some below := by
        simp [popBackStack, hstack, hsaved]
      have hcontainer : n.popBackStack.manager.settled.container =
          n.manager.settled.container.undoAll t.ops := by
        simp [popBackStack, hstack, hsaved, Executed.execute, hundo]
      have hcond : n.LeavesOne graph .popBackStack ↔
          ∃ x ∈ n.manager.settled.container.added, x.className = graph.resolve below ∧
            ∀ g ∈ n.manager.settled.container.added,
              Returns n.manager.settled.container t.ops g ↔ g = x := by
        simp [LeavesOne, hstack, hsaved, hcons, ht]
      rw [showsTop_iff_of_head hhead, hcontainer, hcond, crashed_undoAll,
        exists_visible_undoAll_iff h.nodup]
      exact and_iff_right hshows.crashed

theorem showsTop_step {a : Action} (h : Follows n.manager.settled n.mBackStack)
    (hshows : n.ShowsTop graph) (hstep : n.step graph a = some n') :
    n'.ShowsTop graph ↔ n.LeavesOne graph a := by
  cases a with
  | navigate destId singleTop reuse =>
      obtain ⟨-, hnavigate⟩ := Option.ite_none_right_eq_some.mp hstep
      obtain rfl := Option.some.inj hnavigate
      exact showsTop_navigate h hshows destId singleTop reuse
  | popBackStack =>
      obtain rfl := Option.some.inj hstep
      exact showsTop_popBackStack h hshows
  | executeNext =>
      obtain ⟨m, hm, rfl⟩ := Option.map_eq_some_iff.mp hstep
      refine iff_of_true ⟨?_, ?_⟩ trivial
      · rw [Manager.settled_executeNext hm]
        exact hshows.crashed
      · rw [Manager.settled_executeNext hm]
        exact hshows.visible
  | setStateSaved stateSaved =>
      obtain rfl := Option.some.inj hstep
      exact iff_of_true ⟨hshows.crashed, hshows.visible⟩ trivial

/-- Along every run, exactly one fragment is visible, of the class of the top destination,
as long as every call meets its condition. -/
theorem showsTop_iff {as : List Action} (hrun : run (step graph) {} as = some n) :
    StatesMeet (step graph) (ShowsTop graph) {} as ↔
      StepsMeet (step graph) (LeavesOne graph) {} as := by
  refine statesMeet_iff_stepsMeet (D := fun _ _ ↦ True)
    (I := fun n ↦ Follows n.manager.settled n.mBackStack) ?_ ?_ ?_ ?_ stepsMeet_true hrun
  · intro u a v hu _ _ _ hstep
    exact follows_step hu hstep
  · intro u a v hu hshows _ hstep
    exact showsTop_step hu hshows hstep
  · exact ⟨rfl, fun _ hr ↦ absurd hr List.not_mem_nil, List.nodup_nil⟩
  · exact ⟨rfl, fun top htop ↦ nomatch htop⟩

/-- Three pages of the app. -/
def pages : Graph where
  packageName := "com.hzp.hiapp"
  className := fun destId ↦
    if destId = 1 then ".HomeFragment"
    else if destId = 2 then ".CategoryFragment" else ".ProfileFragment"

/-- From the first page to the others, each time back before the next. -/
def forthAndBack : List Action :=
  [.navigate 1 true none, .executeNext, .navigate 1 true none, .executeNext,
    .navigate 2 true none, .popBackStack, .executeNext, .executeNext,
    .navigate 3 false none, .executeNext, .popBackStack, .executeNext]

theorem showsTop_forthAndBack :
    StatesMeet (step pages) (ShowsTop pages) {} forthAndBack := by
  have hrun : (run (step pages) {} forthAndBack).isSome = true := by
    decide
  obtain ⟨n, hn⟩ := Option.isSome_iff_exists.mp hrun
  exact (showsTop_iff hn).mpr (by decide)

/-- One page after the other, and back from the third. -/
def threePages : List Action :=
  [.navigate 1 false none, .executeNext, .navigate 2 false none, .executeNext,
    .navigate 3 false none, .executeNext, .popBackStack, .executeNext]

/-- The first two pages lie on top of each other then. -/
theorem not_showsTop_threePages :
    ∃ n : HiFragmentNavigator, run (step pages) {} threePages = some n ∧
      n.manager.pending.isEmpty = true ∧ n.mBackStack = [2, 1] ∧ ¬ n.ShowsTop pages := by
  have hvisible : ∃ n : HiFragmentNavigator, run (step pages) {} threePages = some n ∧
      n.manager.pending.isEmpty = true ∧ n.mBackStack = [2, 1] ∧
        ∃ f ∈ n.manager.settled.container.added, ∃ g ∈ n.manager.settled.container.added,
          f ≠ g ∧ n.manager.settled.container.hidden f = false ∧
            n.manager.settled.container.hidden g = false :=
    exists_run_of_any (by decide)
  obtain ⟨n, hrun, hpending, hstack, f, hf, g, hg, hne, hfvis, hgvis⟩ := hvisible
  refine ⟨n, hrun, hpending, hstack, fun hshows ↦ ?_⟩
  obtain ⟨x, -, hx⟩ := hshows.visible 2 (by simp [hstack])
  exact hne (((hx f).mp ⟨hf, hfvis⟩).trans ((hx g).mp ⟨hg, hgvis⟩).symm)

end HiFragmentNavigator

end HiApp.Navigation
