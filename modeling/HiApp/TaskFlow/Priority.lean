import HiApp.Lib.Runs
import HiApp.TaskFlow.Traversal

/-!
# Raising the priority of block tasks

`traversalDependencyPriority` goes up `dependTasks`, where the check of the tree
went down `behindTasks`.  What it meets on the way up need not belong to the tree,
and a loop there was seen by nobody: the recursion then has no end.
-/

namespace HiApp.TaskFlow

open Relation Runs

variable {τ : Type*} [DecidableEq τ]

namespace Heap

/-- `a` depends directly on `b`. -/
def Depend (h : Heap τ) (a b : τ) : Prop := b ∈ (h a).dependTasks

/-- Nothing that `t` depends on, directly or not, depends on itself. -/
def NoLoopAbove (h : Heap τ) (t : τ) : Prop :=
  ∀ a, ReflTransGen h.Depend t a → ¬ TransGen h.Depend a a

/-- The second heap has the priority `Int.MAX_VALUE` for some tasks of `S`, and is the
first otherwise. -/
def Lifts (S : τ → Prop) (h h' : Heap τ) : Prop :=
  ∀ x, h' x = h x ∨ S x ∧ h' x = { h x with priority := intMaxValue }

variable {S : τ → Prop} {h h' : Heap τ}

omit [DecidableEq τ] in
theorem Lifts.trans {h'' : Heap τ} (h₁ : Lifts S h h') (h₂ : Lifts S h' h'') :
    Lifts S h h'' := by
  intro x
  rcases h₂ x with hx | ⟨hS, hx⟩
  · rw [hx]
    exact h₁ x
  · refine .inr ⟨hS, ?_⟩
    rcases h₁ x with hx' | ⟨-, hx'⟩
    · rw [hx, hx']
    · rw [hx, hx']

omit [DecidableEq τ] in
theorem Lifts.mono {T : τ → Prop} (hST : ∀ x, S x → T x) (hlift : Lifts S h h') :
    Lifts T h h' :=
  fun x ↦ (hlift x).imp_right fun ⟨hS, hx⟩ ↦ ⟨hST x hS, hx⟩

omit [DecidableEq τ] in
theorem Lifts.dependTasks_eq (hlift : Lifts S h h') (x : τ) :
    (h' x).dependTasks = (h x).dependTasks := by
  rcases hlift x with hx | ⟨-, hx⟩
  · rw [hx]
  · rw [hx]

omit [DecidableEq τ] in
theorem Lifts.depend_eq (hlift : Lifts S h h') : h'.Depend = h.Depend := by
  funext a b
  rw [Depend, Depend, hlift.dependTasks_eq]

omit [DecidableEq τ] in
theorem Lifts.priority_eq_max (hlift : Lifts S h h') {x : τ}
    (hx : (h x).priority = intMaxValue) : (h' x).priority = intMaxValue := by
  rcases hlift x with heq | ⟨-, heq⟩
  · rw [heq, hx]
  · rw [heq]

theorem lifts_setPriority {t : τ} (ht : S t) : Lifts S h (h.setPriority t intMaxValue) := by
  intro x
  rw [setPriority, modify_apply]
  split
  · rename_i hx
    exact .inr ⟨hx ▸ ht, rfl⟩
  · exact .inl rfl

omit [DecidableEq τ] in
/-- A loop lifts what its turns lift. -/
theorem Lifts.forEach {β : Type*} {body : Heap τ → β → Heap τ × Option TaskError}
    {xs : List β} (hlift : Lifts S h h')
    (hbody : ∀ u x, x ∈ xs → u.Depend = h.Depend → Lifts S u (body u x).1) :
    Lifts S h (forEach body h' xs).1 := by
  refine forEach.invariant_always (I := fun u ↦ Lifts S h u) ?_ hlift
  intro u x hx hu
  exact hu.trans (hbody u x hx hu.depend_eq)

end Heap

/-! ## Going up from one task -/

namespace Arena

variable {h h' : Heap τ} {task : τ} {fuel : ℕ}

/-- The walk up raises only what it meets, whether it comes to an end or not. -/
theorem lifts_traversalDependencyPriority (fuel : ℕ) (h : Heap τ) (task : τ) :
    Heap.Lifts (ReflTransGen h.Depend task) h (traversalDependencyPriority fuel h task).1 := by
  induction fuel generalizing h task with
  | zero => exact fun x ↦ .inl rfl
  | succ fuel ih =>
      apply Heap.Lifts.forEach (Heap.lifts_setPriority .refl)
      intro u b hb hu
      apply (ih u b).mono
      intro x hx
      rw [hu] at hx
      exact .head hb hx

theorem lifts_of_traversal {e : Option TaskError}
    (hwalk : traversalDependencyPriority fuel h task = (h', e)) :
    Heap.Lifts (ReflTransGen h.Depend task) h h' := by
  have hlift := lifts_traversalDependencyPriority fuel h task
  rwa [hwalk] at hlift

/-- The turns made so far have left the lists of all tasks alone. -/
theorem depend_of_turns {bs : List τ} {e : Option TaskError}
    (hloop : forEach (fun h dependTask ↦ traversalDependencyPriority fuel h dependTask)
      (h.setPriority task intMaxValue) bs = (h', e)) : h'.Depend = h.Depend := by
  have hlift : Heap.Lifts (fun _ ↦ True) h
      (forEach (fun h dependTask ↦ traversalDependencyPriority fuel h dependTask)
        (h.setPriority task intMaxValue) bs).1 := by
    apply Heap.Lifts.forEach (Heap.lifts_setPriority trivial)
    intro u b _ _
    exact (lifts_traversalDependencyPriority fuel u b).mono fun _ _ ↦ trivial
  rw [hloop] at hlift
  exact hlift.depend_eq

/-- A walk that comes to an end has raised everything it meets. -/
theorem priority_of_completed
    (hwalk : traversalDependencyPriority fuel h task = (h', none)) {x : τ}
    (hx : ReflTransGen h.Depend task x) : (h' x).priority = intMaxValue := by
  have hkeep : ∀ {n : ℕ} {u w : Heap τ} {b y : τ},
      traversalDependencyPriority n u b = (w, none) →
      (u y).priority = intMaxValue → (w y).priority = intMaxValue := by
    intro n u w b y hturn hy
    exact (lifts_of_traversal hturn).priority_eq_max hy
  induction fuel generalizing h h' task x with
  | zero => simp [traversalDependencyPriority] at hwalk
  | succ fuel ih =>
      rw [traversalDependencyPriority] at hwalk
      rcases hx.cases_head with rfl | ⟨b, hb, hbx⟩
      · refine forEach.invariant (I := fun u : Heap τ ↦ (u task).priority = intMaxValue)
          ?_ ?_ hwalk
        · intro u b w _ hu hturn
          exact hkeep hturn hu
        · rw [Heap.setPriority, Heap.modify_apply, if_pos rfl]
      · -- the heap of a later turn has the lists of the first
        refine forEach.achieves
          (Q := fun b u ↦ u.Depend = h.Depend → ∀ x, ReflTransGen h.Depend b x →
            (u x).priority = intMaxValue) ?_ ?_ hwalk b hb (depend_of_turns hwalk) x hbx
        · intro u b w _ hturn hw x hbx
          rw [← hw, (lifts_of_traversal hturn).depend_eq] at hbx
          exact ih hturn hbx
        · intro u b w c hu hturn hw x hcx
          have hsame := (lifts_of_traversal hturn).depend_eq
          exact hkeep hturn (hu (hsame.symm.trans hw) x hcx)

/-- A walk that comes to an end has met no loop. -/
theorem noLoopAbove_of_completed
    (hwalk : traversalDependencyPriority fuel h task = (h', none)) : h.NoLoopAbove task := by
  have hacc : Acc (fun b a ↦ h.Depend a b) task := by
    induction fuel generalizing h h' task with
    | zero => simp [traversalDependencyPriority] at hwalk
    | succ fuel ih =>
        rw [traversalDependencyPriority] at hwalk
        refine ⟨task, fun b hb ↦ ?_⟩
        obtain ⟨u, w, hu, hturn⟩ := forEach.turn (I := fun u : Heap τ ↦ u.Depend = h.Depend)
          (by
            intro u b w _ hu hturn
            exact (lifts_of_traversal hturn).depend_eq.trans hu)
          (Heap.lifts_setPriority (S := fun _ ↦ True) trivial).depend_eq hwalk hb
        have hb' := ih hturn
        rwa [hu] at hb'
  intro a ha
  exact Acyclic.not_transGen_self_of_acc hacc ha

/-- A walk that runs out of fuel has found a chain as long as its fuel. -/
theorem exists_chain_of_thrown {e : TaskError}
    (hwalk : traversalDependencyPriority fuel h task = (h', some e)) :
    e = .stackOverflow ∧
      ∃ path : List τ, path.length = fuel ∧ (task :: path).IsChain h.Depend := by
  induction fuel generalizing h task with
  | zero =>
      rw [traversalDependencyPriority, Prod.mk.injEq, Option.some.injEq] at hwalk
      exact ⟨hwalk.2.symm, [], rfl, by simp⟩
  | succ fuel ih =>
      rw [traversalDependencyPriority] at hwalk
      obtain ⟨pre, b, post, u, hbs, hpre, hturn⟩ := forEach.eq_some_iff.mp hwalk
      obtain ⟨he, path, hlen, hchain⟩ := ih hturn
      rw [depend_of_turns hpre] at hchain
      refine ⟨he, b :: path, by simp [hlen], ?_⟩
      rw [List.isChain_cons_cons]
      exact ⟨by simp [Heap.Depend, hbs], hchain⟩

section

variable [Fintype τ]

/-- With or without more fuel, the walk comes to an end exactly where no loop is
above. -/
theorem completed_iff_noLoopAbove (h : Heap τ) (task : τ) (k : ℕ) :
    (∃ h', traversalDependencyPriority (Fintype.card τ + k) h task = (h', none)) ↔
      h.NoLoopAbove task := by
  constructor
  · rintro ⟨h', hwalk⟩
    exact noLoopAbove_of_completed hwalk
  · intro hloop
    rcases hwalk : traversalDependencyPriority (Fintype.card τ + k) h task with ⟨h', _ | e⟩
    · exact ⟨h', rfl⟩
    · obtain ⟨-, path, hlen, hchain⟩ := exists_chain_of_thrown hwalk
      have hlt := Acyclic.length_lt_card_of_isChain hchain hloop
      omega

/-! ## The pass over the block tasks -/

variable {A : Arena τ} {info : Registry τ} {ids : List String}

/-- What the tasks of some ids depend on. -/
def AboveIds (h : Heap τ) (info : Registry τ) (ids : List String) (x : τ) : Prop :=
  ∃ id ∈ ids, ∃ i, info id = some i ∧ ReflTransGen h.Depend i.task x

theorem lifts_of_raisePriorities {e : Option TaskError}
    (hraise : A.raisePriorities info task h ids = (h', e)) :
    Heap.Lifts (AboveIds h info ids) h h' := by
  have hlift : Heap.Lifts (AboveIds h info ids) h (A.raisePriorities info task h ids).1 := by
    apply Heap.Lifts.forEach (fun _ ↦ .inl rfl)
    intro u id hid hu
    split
    · exact fun _ ↦ .inl rfl
    · rename_i i hi
      apply (lifts_traversalDependencyPriority _ u i.task).mono
      intro x hx
      rw [hu] at hx
      exact ⟨id, hid, i, hi, hx⟩
  rwa [hraise] at hlift

theorem raisePriorities_cons_iff {id : String} :
    A.raisePriorities info task h (id :: ids) = (h', none) ↔
      ∃ i u, info id = some i ∧
        traversalDependencyPriority (Fintype.card τ) h i.task = (u, none) ∧
        A.raisePriorities info task u ids = (h', none) := by
  unfold raisePriorities
  rw [forEach.cons_eq_none_iff]
  cases info id with
  | none => simp
  | some i => simp

/-- A pass that throws has come to an id that is not registered, or to a walk without
an end. -/
theorem raisePriorities_thrown {e : TaskError}
    (hraise : A.raisePriorities info task h ids = (h', some e)) :
    ∃ pre id post, ids = pre ++ id :: post ∧
      ((info id = none ∧ A.raisePriorities info task h pre = (h', none) ∧
        e = .blockTaskNotInTree (A.decl task).id) ∨ e = .stackOverflow) := by
  obtain ⟨pre, id, post, u, hids, hpre, hturn⟩ := forEach.eq_some_iff.mp hraise
  refine ⟨pre, id, post, hids, ?_⟩
  split at hturn
  · rename_i hnone
    obtain ⟨rfl, he⟩ := Prod.mk.inj hturn
    exact .inl ⟨hnone, hpre, (Option.some.inj he).symm⟩
  · exact .inr (exists_chain_of_thrown hturn).1

theorem raisePriorities_missing {pre : List String} {id : String}
    (hpre : A.raisePriorities info task h pre = (h', none)) (hid : info id = none)
    (post : List String) :
    A.raisePriorities info task h (pre ++ id :: post) =
      (h', some (.blockTaskNotInTree (A.decl task).id)) := by
  refine forEach.eq_some_iff.mpr ⟨pre, id, post, h', rfl, hpre, ?_⟩
  simp [hid]

/-- A pass over the ids comes to an end exactly when all of them are registered and
there is no loop above their tasks. -/
theorem raisePriorities_completed_iff (A : Arena τ) (task : τ) :
    (∃ h', A.raisePriorities info task h ids = (h', none)) ↔
      ∀ id ∈ ids, ∃ i, info id = some i ∧ h.NoLoopAbove i.task := by
  induction ids generalizing h with
  | nil => simp [raisePriorities, forEach]
  | cons id ids ih =>
      have hsame : ∀ {i u}, traversalDependencyPriority (Fintype.card τ) h i = (u, none) →
          u.NoLoopAbove = h.NoLoopAbove := by
        intro i u hwalk
        funext t
        rw [Heap.NoLoopAbove, Heap.NoLoopAbove, (lifts_of_traversal hwalk).depend_eq]
      rw [List.forall_mem_cons]
      constructor
      · rintro ⟨h', hraise⟩
        obtain ⟨i, u, hi, hwalk, hrest⟩ := raisePriorities_cons_iff.mp hraise
        refine ⟨⟨i, hi, noLoopAbove_of_completed hwalk⟩, ?_⟩
        rw [← hsame hwalk]
        exact ih.mp ⟨h', hrest⟩
      · rintro ⟨⟨i, hi, hloop⟩, hrest⟩
        obtain ⟨u, hwalk⟩ := (completed_iff_noLoopAbove h i.task 0).mpr hloop
        rw [← hsame hwalk] at hrest
        obtain ⟨h', hraise⟩ := ih.mpr hrest
        exact ⟨h', raisePriorities_cons_iff.mpr ⟨i, u, hi, hwalk, hraise⟩⟩

/-- A completed pass has raised everything above the ids. -/
theorem priority_of_raisePriorities (hraise : A.raisePriorities info task h ids = (h', none))
    {x : τ} (hx : AboveIds h info ids x) : (h' x).priority = intMaxValue := by
  induction ids generalizing h with
  | nil => obtain ⟨id, hid, -⟩ := hx; simp at hid
  | cons id ids ih =>
      obtain ⟨i, u, hi, hwalk, hrest⟩ := raisePriorities_cons_iff.mp hraise
      obtain ⟨id', hid', i', hi', hx⟩ := hx
      rcases List.mem_cons.mp hid' with rfl | hid'
      · obtain rfl : i = i' := Option.some.inj (hi.symm.trans hi')
        exact (lifts_of_raisePriorities hrest).priority_eq_max (priority_of_completed hwalk hx)
      · apply ih hrest
        refine ⟨id', hid', i', hi', ?_⟩
        rwa [(lifts_of_traversal hwalk).depend_eq]

/-- For a completed pass, what is above the ids has the highest priority and the rest
keeps its own. -/
theorem raised_iff (hraise : A.raisePriorities info task h ids = (h', none)) (x : τ) :
    (AboveIds h info ids x → (h' x).priority = intMaxValue) ∧
      (¬ AboveIds h info ids x → (h' x).priority = (h x).priority) := by
  refine ⟨fun hx ↦ priority_of_raisePriorities hraise hx, fun hx ↦ ?_⟩
  rcases lifts_of_raisePriorities hraise x with heq | ⟨hS, -⟩
  · rw [heq]
  · exact absurd hS hx

/-! ## The whole pass of a start -/

variable {blockTaskId : List String}

/-- `b` is a block task of the tree. -/
def BlockTask (A : Arena τ) (h : Heap τ) (blockTaskId : List String) (task b : τ) : Prop :=
  ReflTransGen h.Edge task b ∧ (A.decl b).id ∈ blockTaskId

/-- When the tree is accepted, what is left is the pass over the priorities. -/
theorem traversal_of_completed {v : Visit τ}
    (hwalk : A.innerTraversalDependencyTreeAndInit h blockTaskId (Fintype.card τ)
      { taskRuntimeInfo := info, traversalVisitor := [task] } task = (v, none)) :
    A.traversalDependencyTreeAndInit h blockTaskId info task =
      (((A.raisePriorities v.taskRuntimeInfo task h blockTaskId).1, v.taskRuntimeInfo),
        (A.raisePriorities v.taskRuntimeInfo task h blockTaskId).2) := by
  simp only [traversalDependencyTreeAndInit, hwalk]

section BlockTasks

/-! All tasks of the tree are registered under their ids, and every block id is one of
them: the ids can be replaced by the tasks. -/

variable (hknown : ∀ b, ReflTransGen h.Edge task b → A.Known info b)
  (hblocks : ∀ id ∈ blockTaskId, ∃ b, ReflTransGen h.Edge task b ∧ (A.decl b).id = id)
include hknown hblocks

omit [DecidableEq τ] [Fintype τ] in
theorem aboveIds_iff_blockTask (x : τ) :
    AboveIds h info blockTaskId x ↔
      ∃ b, A.BlockTask h blockTaskId task b ∧ ReflTransGen h.Depend b x := by
  constructor
  · rintro ⟨id, hid, i, hi, hx⟩
    obtain ⟨b, hb, rfl⟩ := hblocks id hid
    obtain ⟨j, hj, rfl⟩ := hknown b hb
    obtain rfl : i = j := Option.some.inj (hi.symm.trans hj)
    exact ⟨i.task, ⟨hb, hid⟩, hx⟩
  · rintro ⟨b, ⟨hb, hid⟩, hx⟩
    obtain ⟨j, hj, rfl⟩ := hknown b hb
    exact ⟨_, hid, j, hj, hx⟩

omit [DecidableEq τ] [Fintype τ] in
theorem noLoopAbove_iff_blockTask :
    (∀ id ∈ blockTaskId, ∃ i, info id = some i ∧ h.NoLoopAbove i.task) ↔
      ∀ b, A.BlockTask h blockTaskId task b → h.NoLoopAbove b := by
  constructor
  · rintro hall b ⟨hb, hid⟩
    obtain ⟨i, hi, hloop⟩ := hall _ hid
    obtain ⟨j, hj, rfl⟩ := hknown b hb
    obtain rfl : i = j := Option.some.inj (hi.symm.trans hj)
    exact hloop
  · intro hall id hid
    obtain ⟨b, hb, rfl⟩ := hblocks id hid
    obtain ⟨i, hi, rfl⟩ := hknown b hb
    exact ⟨i, hi, hall _ ⟨hb, hid⟩⟩

end BlockTasks

/-- For a tree that passes the check and has all block tasks, the pass comes to an end
and raises exactly the block tasks and what they depend on, if and only if there
is no loop among the tasks that a block task depends on. -/
theorem priorities_raised_iff (A : Arena τ) (h : Heap τ) (blockTaskId : List String)
    (info : Registry τ) (task : τ)
    (hcheck : (A.innerTraversalDependencyTreeAndInit h blockTaskId (Fintype.card τ)
      { taskRuntimeInfo := info, traversalVisitor := [task] } task).2 = none)
    (hblocks : ∀ id ∈ blockTaskId, ∃ b, ReflTransGen h.Edge task b ∧ (A.decl b).id = id) :
    (∃ h' info', A.traversalDependencyTreeAndInit h blockTaskId info task =
        ((h', info'), none) ∧
      ∀ x, ((∃ b, A.BlockTask h blockTaskId task b ∧ ReflTransGen h.Depend b x) →
          (h' x).priority = intMaxValue) ∧
        ((¬ ∃ b, A.BlockTask h blockTaskId task b ∧ ReflTransGen h.Depend b x) →
          (h' x).priority = (h x).priority)) ↔
      ∀ b, A.BlockTask h blockTaskId task b → h.NoLoopAbove b := by
  obtain ⟨v, hwalk⟩ : ∃ v, A.innerTraversalDependencyTreeAndInit h blockTaskId
      (Fintype.card τ) { taskRuntimeInfo := info, traversalVisitor := [task] } task =
        (v, none) := ⟨_, Prod.ext rfl hcheck⟩
  have hknown : ∀ b, ReflTransGen h.Edge task b → A.Known v.taskRuntimeInfo b :=
    fun b hb ↦ known_of_completed hwalk hb
  rw [← noLoopAbove_iff_blockTask hknown hblocks, ← raisePriorities_completed_iff A task,
    traversal_of_completed hwalk]
  constructor
  · rintro ⟨h', info', hdone, -⟩
    have hnone : (A.raisePriorities v.taskRuntimeInfo task h blockTaskId).2 = none :=
      congrArg Prod.snd hdone
    exact ⟨_, Prod.ext rfl hnone⟩
  · rintro ⟨h', hraise⟩
    refine ⟨h', v.taskRuntimeInfo, by rw [hraise], fun x ↦ ?_⟩
    rw [← aboveIds_iff_blockTask hknown hblocks]
    exact raised_iff hraise x

end

/-! ## A loop outside the tree -/

def besideTheTree : Arena (Fin 4) :=
  .plain fun t ↦ if t = 0 then "start" else if t = 1 then "block"
    else if t = 2 then "x" else "y"

/-- `start` before `block`, which also depends on `x`; `x` and `y` depend on each
other. -/
def loopAbove : Heap (Fin 4) :=
  [Call.dependOn 1 0, .dependOn 1 2, .dependOn 2 3, .dependOn 3 2].foldl
    besideTheTree.perform (Heap.fresh fun _ ↦ 0)

/-- The check accepts the tree of `start` and finds `block` in it, but the walk up from
`block` never ends. -/
theorem priorities_not_raised_loopAbove :
    (besideTheTree.innerTraversalDependencyTreeAndInit loopAbove ["block"] 4
      { taskRuntimeInfo := fun _ ↦ none, traversalVisitor := [0] } 0).2 = none ∧
    (ReflTransGen loopAbove.Edge 0 1 ∧ (besideTheTree.decl 1).id = "block") ∧
    (besideTheTree.traversalDependencyTreeAndInit loopAbove ["block"] (fun _ ↦ none) 0).2 =
      some .stackOverflow ∧
    ∀ fuel h', traversalDependencyPriority fuel loopAbove 1 ≠ (h', none) := by
  have hstart : loopAbove.Edge 0 1 := by
    unfold Heap.Edge
    decide
  have hblock : loopAbove.Depend 1 2 := by
    unfold Heap.Depend
    decide
  have hx : loopAbove.Depend 2 3 := by
    unfold Heap.Depend
    decide
  have hy : loopAbove.Depend 3 2 := by
    unfold Heap.Depend
    decide
  refine ⟨by decide, ⟨.single hstart, rfl⟩, by decide, ?_⟩
  intro fuel h' hwalk
  exact noLoopAbove_of_completed hwalk 2 (.single hblock) (.tail (.single hx) hy)

/-- `start` before `block`, which also depends on `x`. -/
def dependAbove : Heap (Fin 4) :=
  [Call.dependOn 1 0, .dependOn 1 2].foldl besideTheTree.perform (Heap.fresh fun _ ↦ 0)

theorem priorities_raised_iff_dependAbove :
    ∃ h' info', besideTheTree.traversalDependencyTreeAndInit dependAbove ["block"]
      (fun _ ↦ none) 0 = ((h', info'), none) ∧ (h' 2).priority = intMaxValue := by
  have hdepend : ∀ a b, dependAbove.Depend a b → a = 1 ∧ (b = 0 ∨ b = 2) := by
    unfold Heap.Depend
    decide
  have hstart : dependAbove.Edge 0 1 := by
    unfold Heap.Edge
    decide
  have hblock : dependAbove.Depend 1 2 := by
    unfold Heap.Depend
    decide
  have htree : besideTheTree.BlockTask dependAbove ["block"] 0 1 :=
    ⟨.single hstart, by decide⟩
  obtain ⟨h', info', hdone, hall⟩ := (priorities_raised_iff besideTheTree dependAbove
    ["block"] (fun _ ↦ none) 0 (by decide) (by
      intro id hid
      obtain rfl := List.mem_singleton.mp hid
      exact ⟨1, .single hstart, rfl⟩)).mpr (by
      intro b _ a _ hcycle
      -- only `block` depends on anything, and not on itself
      obtain ⟨c, hac, -⟩ := TransGen.head'_iff.mp hcycle
      obtain ⟨d, -, hda⟩ := TransGen.tail'_iff.mp hcycle
      obtain ⟨rfl, -⟩ := hdepend a c hac
      have hlow := (hdepend d 1 hda).2
      revert hlow
      decide)
  exact ⟨h', info', hdone, (hall 2).1 ⟨1, htree, .single hblock⟩⟩

end Arena

end HiApp.TaskFlow
