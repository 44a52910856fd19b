import HiApp.TaskFlow.Runtime

/-!
# What the check before a run accepts

`innerTraversalDependencyTreeAndInit` is a depth-first walk without a set of
finished tasks: its visitor set is the path that led to the current task, and a
shared successor is walked again.  A path is free of repetitions, so the walk
ends.  It completes exactly when nothing reachable lies on a cycle and every id
met belongs to one object.
-/

namespace HiApp.TaskFlow

open Relation

variable {τ : Type*} [DecidableEq τ]

namespace Arena

variable (A : Arena τ)

/-! ## The registry along the walk -/

/-- Every entry of the first registry is in the second. -/
def Extends (info info' : Registry τ) : Prop :=
  ∀ id i, info id = some i → info' id = some i

/-- The task is registered under its id. -/
def Known (info : Registry τ) (t : τ) : Prop :=
  ∃ i, info (A.decl t).id = some i ∧ i.task = t

/-- What the walk writes for a task. -/
def newInfo (blockTaskId : List String) (t : τ) : TaskRuntimeInfo τ :=
  { task := t, isBlockTask := decide ((A.decl t).id ∈ blockTaskId) }

/-- Every entry is an old one or that of a task reachable from `root`. -/
def FromTree (h : Heap τ) (blockTaskId : List String) (root : τ)
    (info info' : Registry τ) : Prop :=
  ∀ id i, info' id = some i → info id = some i ∨
    ∃ a, ReflTransGen h.Edge root a ∧ (A.decl a).id = id ∧ i = A.newInfo blockTaskId a

variable {A} {h : Heap τ} {blockTaskId : List String}
  {info info' : Registry τ} {task root : τ} {fuel : ℕ} {v v' : Visit τ}

omit [DecidableEq τ] in
theorem Extends.trans {info'' : Registry τ} (h₁ : Extends info info')
    (h₂ : Extends info' info'') : Extends info info'' :=
  fun id i hi ↦ h₂ id i (h₁ id i hi)

omit [DecidableEq τ] in
theorem Extends.antisymm (h₁ : Extends info info') (h₂ : Extends info' info) :
    info = info' := by
  funext id
  cases hi : info id with
  | some i => exact (h₁ id i hi).symm
  | none =>
      cases hi' : info' id with
      | none => rfl
      | some i =>
          have := h₂ id i hi'
          simp [hi] at this

omit [DecidableEq τ] in
theorem Known.of_extends {t : τ} (hext : Extends info info') (ht : A.Known info t) :
    A.Known info' t := by
  obtain ⟨i, hi, htask⟩ := ht
  exact ⟨i, hext _ _ hi, htask⟩

/-- The three outcomes of `register`. -/
theorem register_cases (A : Arena τ) (blockTaskId : List String) (info : Registry τ)
    (task : τ) :
    (info (A.decl task).id = none ∧ A.register blockTaskId info task =
      (Function.update info (A.decl task).id (some (A.newInfo blockTaskId task)), none)) ∨
    (A.Known info task ∧ A.register blockTaskId info task = (info, none)) ∨
    ((∃ i, info (A.decl task).id = some i ∧ i.task ≠ task) ∧
      A.register blockTaskId info task = (info, some (.sameId (A.decl task).id))) := by
  cases hold : info (A.decl task).id with
  | none => exact .inl ⟨rfl, by simp [register, hold, newInfo]⟩
  | some old =>
      by_cases hsame : old.task = task
      · exact .inr (.inl ⟨⟨old, hold, hsame⟩, by simp [register, hold, hsame]⟩)
      · exact .inr (.inr ⟨⟨old, rfl, hsame⟩, by simp [register, hold, hsame]⟩)

theorem extends_register {e : Option TaskError}
    (hreg : A.register blockTaskId info task = (info', e)) : Extends info info' := by
  rcases A.register_cases blockTaskId info task with
    ⟨hnone, hcase⟩ | ⟨-, hcase⟩ | ⟨-, hcase⟩
  · obtain rfl := (Prod.mk.inj (hcase.symm.trans hreg)).1
    intro id i hi
    have hid : id ≠ (A.decl task).id := by
      rintro rfl
      simp [hnone] at hi
    rwa [Function.update_of_ne hid]
  · obtain rfl := (Prod.mk.inj (hcase.symm.trans hreg)).1
    exact fun _ _ hi ↦ hi
  · obtain rfl := (Prod.mk.inj (hcase.symm.trans hreg)).1
    exact fun _ _ hi ↦ hi

theorem known_of_register (hreg : A.register blockTaskId info task = (info', none)) :
    A.Known info' task := by
  rcases A.register_cases blockTaskId info task with
    ⟨-, hcase⟩ | ⟨hknown, hcase⟩ | ⟨-, hcase⟩
  · obtain rfl := (Prod.mk.inj (hcase.symm.trans hreg)).1
    exact ⟨A.newInfo blockTaskId task, by simp, rfl⟩
  · obtain rfl := (Prod.mk.inj (hcase.symm.trans hreg)).1
    exact hknown
  · simp [hcase] at hreg

theorem FromTree.register (hfrom : A.FromTree h blockTaskId root info info')
    (htask : ReflTransGen h.Edge root task) :
    A.FromTree h blockTaskId root info (A.register blockTaskId info' task).1 := by
  rcases A.register_cases blockTaskId info' task with
    ⟨-, hreg⟩ | ⟨-, hreg⟩ | ⟨-, hreg⟩
  · rw [hreg]
    intro id i hi
    dsimp only at hi
    by_cases hid : id = (A.decl task).id
    · rw [hid, Function.update_self] at hi
      exact .inr ⟨task, htask, hid.symm, (Option.some.inj hi).symm⟩
    · rw [Function.update_of_ne hid] at hi
      exact hfrom id i hi
  · rwa [hreg]
  · rwa [hreg]

/-! ## One call of the walk -/

/-- What every turn of the loop keeps, given that the recursive calls keep it, the
whole walk keeps, whether it throws or not. -/
theorem inner_invariant (fuel : ℕ) (v : Visit τ) {I : Registry τ → Prop}
    (hregister : ∀ info t, ReflTransGen h.Edge root t → I info →
      I (A.register blockTaskId info t).1)
    (htask : ReflTransGen h.Edge root task) (hv : I v.taskRuntimeInfo) :
    I (A.innerTraversalDependencyTreeAndInit h blockTaskId fuel v task).1.taskRuntimeInfo := by
  induction fuel generalizing v task with
  | zero => exact hv
  | succ fuel ih =>
      have hreg := hregister _ task htask hv
      rw [innerTraversalDependencyTreeAndInit]
      rcases hcase : A.register blockTaskId v.taskRuntimeInfo task with ⟨info, _ | e⟩
      · rw [hcase] at hreg
        refine forEach.invariant_always (I := fun u : Visit τ ↦ I u.taskRuntimeInfo) ?_ hreg
        intro u b hb hu
        have hwalk := ih (v := { u with traversalVisitor := u.traversalVisitor ++ [b] })
          (htask.tail hb) hu
        unfold visitBehindTask
        split
        · exact hu
        · split
          · rename_i w e hw
            simpa only [hw] using hwalk
          · rename_i w hw
            simpa only [hw] using hwalk
      · rw [hcase] at hreg
        exact hreg

theorem extends_inner {e : Option TaskError}
    (hwalk : A.innerTraversalDependencyTreeAndInit h blockTaskId fuel v task = (v', e)) :
    Extends v.taskRuntimeInfo v'.taskRuntimeInfo := by
  have hinv : Extends v.taskRuntimeInfo (A.innerTraversalDependencyTreeAndInit h
      blockTaskId fuel v task).1.taskRuntimeInfo := by
    refine inner_invariant fuel v ?_ .refl (fun _ _ hi ↦ hi)
    intro info t _ hext
    exact hext.trans (extends_register rfl)
  rwa [hwalk] at hinv

theorem fromTree_inner {e : Option TaskError}
    (hwalk : A.innerTraversalDependencyTreeAndInit h blockTaskId fuel v task = (v', e)) :
    A.FromTree h blockTaskId task v.taskRuntimeInfo v'.taskRuntimeInfo := by
  have hinv : A.FromTree h blockTaskId task v.taskRuntimeInfo
      (A.innerTraversalDependencyTreeAndInit h blockTaskId fuel v task).1.taskRuntimeInfo := by
    refine inner_invariant fuel v ?_ .refl (fun _ _ hi ↦ .inl hi)
    intro info t ht hfrom
    exact hfrom.register ht
  rwa [hwalk] at hinv

/-- One turn of the loop, whether it throws or not. -/
theorem extends_visitBehindTask {b : τ} {e : Option TaskError}
    (hturn : A.visitBehindTask (A.innerTraversalDependencyTreeAndInit h blockTaskId fuel)
      task v b = (v', e)) : Extends v.taskRuntimeInfo v'.taskRuntimeInfo := by
  unfold visitBehindTask at hturn
  split at hturn
  · obtain rfl := (Prod.mk.inj hturn).1
    exact fun _ _ hi ↦ hi
  · split at hturn
    · rename_i w e' hw
      obtain rfl := (Prod.mk.inj hturn).1
      have hext := extends_inner hw
      exact hext
    · rename_i w hw
      obtain rfl := (Prod.mk.inj hturn).1
      have hext := extends_inner hw
      exact hext

/-- A completed walk starts with a completed `register` and goes on with a completed
loop. -/
theorem inner_eq_none_iff :
    A.innerTraversalDependencyTreeAndInit h blockTaskId (fuel + 1) v task = (v', none) ↔
      ∃ info, A.register blockTaskId v.taskRuntimeInfo task = (info, none) ∧
        forEach (A.visitBehindTask
          (A.innerTraversalDependencyTreeAndInit h blockTaskId fuel) task)
          { v with taskRuntimeInfo := info } (h task).behindTasks = (v', none) := by
  rw [innerTraversalDependencyTreeAndInit]
  rcases A.register blockTaskId v.taskRuntimeInfo task with ⟨info, _ | e⟩
  · simp
  · simp

/-- After a completed walk all tasks behind the first are registered. -/
theorem known_of_completed
    (hwalk : A.innerTraversalDependencyTreeAndInit h blockTaskId fuel v task = (v', none))
    {a : τ} (ha : ReflTransGen h.Edge task a) : A.Known v'.taskRuntimeInfo a := by
  induction fuel generalizing v v' task a with
  | zero => simp [innerTraversalDependencyTreeAndInit] at hwalk
  | succ fuel ih =>
      obtain ⟨info, hreg, hloop⟩ := inner_eq_none_iff.mp hwalk
      rcases ha.cases_head with rfl | ⟨b, hb, hba⟩
      · refine forEach.invariant (I := fun u : Visit τ ↦ A.Known u.taskRuntimeInfo task)
          ?_ (known_of_register hreg) hloop
        intro u b w _ hu hturn
        exact hu.of_extends (extends_visitBehindTask hturn)
      · refine forEach.achieves
          (Q := fun b (u : Visit τ) ↦ ∀ a, ReflTransGen h.Edge b a →
            A.Known u.taskRuntimeInfo a) ?_ ?_ hloop b hb a hba
        · intro u b w _ hturn a hba
          obtain ⟨-, x, hx, rfl⟩ := A.visitBehindTask_completed hturn
          exact ih hx hba
        · intro u b w c hu hturn a hca
          exact (hu a hca).of_extends (extends_visitBehindTask hturn)

/-! ## Termination -/

omit [DecidableEq τ] in
theorem nodup_concat {path : List τ} {b : τ} (hpath : path.Nodup) (hb : b ∉ path) :
    (path ++ [b]).Nodup := by
  refine hpath.append (by simp) ?_
  intro x hx hxb
  exact hb (List.mem_singleton.mp hxb ▸ hx)

/-- Between two turns of the loop the visitor set is that of the call. -/
theorem traversalVisitor_of_turns {bs : List τ}
    (hloop : forEach (A.visitBehindTask
      (A.innerTraversalDependencyTreeAndInit h blockTaskId fuel) task) v bs = (v', none)) :
    v'.traversalVisitor = v.traversalVisitor := by
  refine forEach.invariant
    (I := fun u : Visit τ ↦ u.traversalVisitor = v.traversalVisitor) ?_ rfl hloop
  intro u b w _ hu hturn
  obtain ⟨hb, x, hx, rfl⟩ := A.visitBehindTask_completed hturn
  dsimp only
  rw [A.traversalVisitor_of_completed hx, List.erase_append_right _ hb]
  simpa using hu

theorem visitBehindTask_thrown {walk : Visit τ → τ → Visit τ × Option TaskError}
    {b : τ} {e : TaskError} (hturn : A.visitBehindTask walk task v b = (v', some e)) :
    (b ∈ v.traversalVisitor ∧ v' = v ∧ e = .loopback (A.decl task).id) ∨
      (b ∉ v.traversalVisitor ∧
        walk { v with traversalVisitor := v.traversalVisitor ++ [b] } b = (v', some e)) := by
  unfold visitBehindTask at hturn
  split at hturn
  · rename_i hb
    obtain ⟨hv, he⟩ := Prod.mk.inj hturn
    exact .inl ⟨hb, hv.symm, (Option.some.inj he).symm⟩
  · rename_i hb
    split at hturn
    · rename_i w e' hw
      exact .inr ⟨hb, hw.trans hturn⟩
    · simp at hturn

theorem inner_thrown {e : TaskError}
    (hwalk : A.innerTraversalDependencyTreeAndInit h blockTaskId (fuel + 1) v task =
      (v', some e)) :
    (A.register blockTaskId v.taskRuntimeInfo task = (v'.taskRuntimeInfo, some e)) ∨
      ∃ info pre b post u, A.register blockTaskId v.taskRuntimeInfo task = (info, none) ∧
        (h task).behindTasks = pre ++ b :: post ∧
        forEach (A.visitBehindTask
          (A.innerTraversalDependencyTreeAndInit h blockTaskId fuel) task)
          { v with taskRuntimeInfo := info } pre = (u, none) ∧
        A.visitBehindTask (A.innerTraversalDependencyTreeAndInit h blockTaskId fuel)
          task u b = (v', some e) := by
  rw [innerTraversalDependencyTreeAndInit] at hwalk
  rcases hreg : A.register blockTaskId v.taskRuntimeInfo task with ⟨info, _ | e'⟩
  · rw [hreg] at hwalk
    obtain ⟨pre, b, post, u, hbs, hpre, hturn⟩ := forEach.eq_some_iff.mp hwalk
    exact .inr ⟨info, pre, b, post, u, rfl, hbs, hpre, hturn⟩
  · rw [hreg] at hwalk
    obtain ⟨rfl, he⟩ := Prod.mk.inj hwalk
    exact .inl (by rw [he])

/-- A path without repetitions is no longer than there are tasks, so the walk never
uses up its fuel: what it throws is one of its own two exceptions. -/
theorem inner_thrown_kind [Fintype τ] {e : TaskError} (hnodup : v.traversalVisitor.Nodup)
    (hfuel : Fintype.card τ < fuel + v.traversalVisitor.length)
    (hwalk : A.innerTraversalDependencyTreeAndInit h blockTaskId fuel v task =
      (v', some e)) : ∃ id, e = .sameId id ∨ e = .loopback id := by
  induction fuel generalizing v task with
  | zero =>
      have hlength := hnodup.length_le_card
      omega
  | succ fuel ih =>
      rcases inner_thrown hwalk with hreg | ⟨info, pre, b, post, u, -, -, hpre, hturn⟩
      · rcases A.register_cases blockTaskId v.taskRuntimeInfo task with
          ⟨-, hcase⟩ | ⟨-, hcase⟩ | ⟨-, hcase⟩
        · simp [hcase] at hreg
        · simp [hcase] at hreg
        · have he := (Prod.mk.inj (hcase.symm.trans hreg)).2
          exact ⟨_, .inl (Option.some.inj he).symm⟩
      · have hvisitor := traversalVisitor_of_turns hpre
        dsimp only at hvisitor
        rcases visitBehindTask_thrown hturn with ⟨-, -, he⟩ | ⟨hb, hwalk⟩
        · exact ⟨_, .inr he⟩
        · rw [hvisitor] at hb
          refine ih ?_ ?_ hwalk
          · rw [hvisitor]
            exact nodup_concat hnodup hb
          · rw [hvisitor, List.length_append, List.length_singleton]
            omega

/-! ## Completeness -/

/-- The tree fits the registry: nothing reachable lies on a cycle, and every id
reachable belongs to one object, also when it was registered before. -/
structure Fits (A : Arena τ) (h : Heap τ) (info : Registry τ) (root : τ) : Prop where
  acyclic : ∀ a, ReflTransGen h.Edge root a → ¬ TransGen h.Edge a a
  distinct : ∀ a b, ReflTransGen h.Edge root a → ReflTransGen h.Edge root b →
    (A.decl a).id = (A.decl b).id → a = b
  registered : ∀ a, ReflTransGen h.Edge root a → ∀ i,
    info (A.decl a).id = some i → i.task = a

omit [DecidableEq τ] in
/-- Walking from a task of the tree keeps the registry in accord with the tree. -/
theorem Fits.of_fromTree (hfits : A.Fits h info root)
    (hfrom : A.FromTree h blockTaskId root info info') : A.Fits h info' root := by
  refine ⟨hfits.acyclic, hfits.distinct, ?_⟩
  intro a ha i hi
  rcases hfrom _ i hi with hi | ⟨b, hb, hid, rfl⟩
  · exact hfits.registered a ha i hi
  · exact (hfits.distinct a b ha hb hid.symm).symm

omit [DecidableEq τ] in
/-- The path to a task leads on to the tasks behind it. -/
theorem path_concat {path : List τ} {b : τ}
    (hpath : ∀ x ∈ path, ReflTransGen h.Edge x task) (hb : h.Edge task b) :
    ∀ x ∈ path ++ [b], ReflTransGen h.Edge x b := by
  intro x hx
  rcases List.mem_append.mp hx with hx | hx
  · exact (hpath x hx).tail hb
  · rw [List.mem_singleton.mp hx]

theorem Fits.inner [Fintype τ] (hfits : A.Fits h v.taskRuntimeInfo root)
    (htask : ReflTransGen h.Edge root task) (hnodup : v.traversalVisitor.Nodup)
    (hpath : ∀ x ∈ v.traversalVisitor, ReflTransGen h.Edge x task)
    (hfuel : Fintype.card τ < fuel + v.traversalVisitor.length) :
    ∃ v', A.innerTraversalDependencyTreeAndInit h blockTaskId fuel v task =
      (v', none) ∧ A.Fits h v'.taskRuntimeInfo root := by
  induction fuel generalizing v task with
  | zero =>
      have hlength := hnodup.length_le_card
      omega
  | succ fuel ih =>
      have hregister : ∃ info, A.register blockTaskId v.taskRuntimeInfo task =
          (info, none) ∧ A.Fits h info root := by
        have hold : A.FromTree h blockTaskId root v.taskRuntimeInfo v.taskRuntimeInfo :=
          fun _ _ hi ↦ .inl hi
        have hkeep := hfits.of_fromTree (hold.register htask)
        rcases A.register_cases blockTaskId v.taskRuntimeInfo task with
          ⟨-, hreg⟩ | ⟨-, hreg⟩ | ⟨⟨i, hi, hne⟩, -⟩
        · rw [hreg] at hkeep
          exact ⟨_, hreg, hkeep⟩
        · rw [hreg] at hkeep
          exact ⟨_, hreg, hkeep⟩
        · exact absurd (hfits.registered task htask i hi) hne
      obtain ⟨info, hreg, hinfo⟩ := hregister
      have hturn : ∀ (u : Visit τ) b, b ∈ (h task).behindTasks →
          A.Fits h u.taskRuntimeInfo root ∧ u.traversalVisitor = v.traversalVisitor →
          ∃ w, A.visitBehindTask (A.innerTraversalDependencyTreeAndInit h blockTaskId fuel)
            task u b = (w, none) ∧
            A.Fits h w.taskRuntimeInfo root ∧ w.traversalVisitor = v.traversalVisitor := by
        rintro u b hb ⟨hu, hvisitor⟩
        have hnot : b ∉ u.traversalVisitor := by
          intro hmem
          rw [hvisitor] at hmem
          exact hfits.acyclic b (htask.tail hb) (TransGen.tail' (hpath b hmem) hb)
        have hwalk := ih (v := { u with traversalVisitor := u.traversalVisitor ++ [b] })
          hu (htask.tail hb)
        simp only [hvisitor] at hwalk hnot ⊢
        obtain ⟨w, hw, hwfits⟩ := hwalk (nodup_concat hnodup hnot)
          (path_concat hpath hb)
          (by rw [List.length_append, List.length_singleton]; omega)
        refine ⟨{ w with traversalVisitor := w.traversalVisitor.erase b }, ?_, hwfits, ?_⟩
        · simp [visitBehindTask, hvisitor, hnot, hw]
        · have hback := A.traversalVisitor_of_completed hw
          dsimp only at hback ⊢
          rw [hback, List.erase_append_right _ hnot]
          simp
      obtain ⟨v', hloop, hv', -⟩ := forEach.completes hturn
        (s := { v with taskRuntimeInfo := info }) ⟨hinfo, rfl⟩
      exact ⟨v', inner_eq_none_iff.mpr ⟨info, hreg, hloop⟩, hv'⟩

theorem fits_of_completed
    (hwalk : A.innerTraversalDependencyTreeAndInit h blockTaskId fuel v task = (v', none))
    (htask : task ∈ v.traversalVisitor) : A.Fits h v.taskRuntimeInfo task := by
  refine ⟨fun a ha ↦ A.not_transGen_self hwalk htask ha, ?_, ?_⟩
  · intro a b ha hb hid
    obtain ⟨i, hi, rfl⟩ := known_of_completed hwalk ha
    obtain ⟨j, hj, rfl⟩ := known_of_completed hwalk hb
    rw [hid, hj] at hi
    exact congrArg TaskRuntimeInfo.task (Option.some.inj hi).symm
  · intro a ha i hi
    obtain ⟨j, hj, rfl⟩ := known_of_completed hwalk ha
    have hkept := extends_inner hwalk _ i hi
    rw [hj] at hkept
    exact congrArg TaskRuntimeInfo.task (Option.some.inj hkept).symm

variable (A h blockTaskId info task) in
/-- The check completes exactly for the trees that fit the registry. -/
theorem completed_iff_fits [Fintype τ] (k : ℕ) :
    (∃ v', A.innerTraversalDependencyTreeAndInit h blockTaskId (Fintype.card τ + k)
      { taskRuntimeInfo := info, traversalVisitor := [task] } task = (v', none)) ↔
      A.Fits h info task := by
  constructor
  · rintro ⟨v', hwalk⟩
    exact fits_of_completed hwalk (by simp)
  · intro hfits
    have hpath : ∀ x ∈ [task], ReflTransGen h.Edge x task := by
      intro x hx
      rw [List.mem_singleton.mp hx]
    have hfuel : Fintype.card τ < Fintype.card τ + k + [task].length := by
      rw [List.length_singleton]
      omega
    exact (Fits.inner (v := { taskRuntimeInfo := info, traversalVisitor := [task] })
      hfits .refl (List.nodup_singleton task) hpath hfuel).imp fun _ hwalk ↦ hwalk.1

theorem accepted_fits [Fintype τ] {h' : Heap τ}
    (hinit : A.traversalDependencyTreeAndInit h blockTaskId info task =
      ((h', info'), none)) : A.Fits h info task := by
  unfold traversalDependencyTreeAndInit at hinit
  split at hinit
  · simp at hinit
  · rename_i v hwalk
    exact (completed_iff_fits A h blockTaskId info task 0).mp ⟨v, hwalk⟩

/-- After a completed check the registry has an entry for every task of the tree, and
otherwise what it had before. -/
theorem registry_of_completed
    (hwalk : A.innerTraversalDependencyTreeAndInit h blockTaskId fuel v task = (v', none))
    (id : String) (i : TaskRuntimeInfo τ) :
    v'.taskRuntimeInfo id = some i ↔ v.taskRuntimeInfo id = some i ∨
      v.taskRuntimeInfo id = none ∧ ∃ a, ReflTransGen h.Edge task a ∧
        (A.decl a).id = id ∧ i = A.newInfo blockTaskId a := by
  constructor
  · intro hi
    rcases fromTree_inner hwalk id i hi with hold | hnew
    · exact .inl hold
    · cases hv : v.taskRuntimeInfo id with
      | none => exact .inr ⟨rfl, hnew⟩
      | some j =>
          have hkept := extends_inner hwalk id j hv
          exact .inl (hkept ▸ hi)
  · rintro (hold | ⟨hnone, a, ha, rfl, rfl⟩)
    · exact extends_inner hwalk id i hold
    · obtain ⟨j, hj, hja⟩ := known_of_completed hwalk ha
      rcases fromTree_inner hwalk _ j hj with hold | ⟨b, -, -, rfl⟩
      · simp [hnone] at hold
      · obtain rfl : b = a := hja
        exact hj

/-- The check of the start task on an empty registry: it comes to an end, it completes
exactly when the tasks reachable from the start task lie on no cycle and have
pairwise different ids, and then it has registered these tasks and no others. -/
theorem innerTraversal_complete [Fintype τ] (A : Arena τ) (h : Heap τ)
    (blockTaskId : List String) (task : τ) (k : ℕ) :
    let result := A.innerTraversalDependencyTreeAndInit h blockTaskId (Fintype.card τ + k)
      { taskRuntimeInfo := fun _ ↦ none, traversalVisitor := [task] } task
    result.2 ≠ some .stackOverflow ∧
    (result.2 = none ↔
      (∀ a, ReflTransGen h.Edge task a → ¬ TransGen h.Edge a a) ∧
      ∀ a b, ReflTransGen h.Edge task a → ReflTransGen h.Edge task b →
        (A.decl a).id = (A.decl b).id → a = b) ∧
    (result.2 = none → ∀ id i, result.1.taskRuntimeInfo id = some i ↔
      ∃ a, ReflTransGen h.Edge task a ∧ (A.decl a).id = id ∧
        i = { task := a, isBlockTask := decide (id ∈ blockTaskId) }) := by
  intro result
  have hfuel : Fintype.card τ < Fintype.card τ + k + [task].length := by
    rw [List.length_singleton]
    omega
  refine ⟨?_, ?_, ?_⟩
  · intro hover
    have hwalk : result = (result.1, some .stackOverflow) := Prod.ext rfl hover
    obtain ⟨id, he | he⟩ := inner_thrown_kind (List.nodup_singleton task) hfuel hwalk
    · simp at he
    · simp at he
  · have hfits := completed_iff_fits A h blockTaskId (fun _ ↦ none) task k
    constructor
    · intro hnone
      have hdone := hfits.mp ⟨result.1, Prod.ext rfl hnone⟩
      exact ⟨hdone.acyclic, hdone.distinct⟩
    · rintro ⟨hacyclic, hdistinct⟩
      obtain ⟨v', hwalk⟩ := hfits.mpr ⟨hacyclic, hdistinct, by simp⟩
      exact congrArg Prod.snd hwalk
  · intro hnone id i
    have hwalk : result = (result.1, none) := Prod.ext rfl hnone
    rw [registry_of_completed hwalk]
    simp only [reduceCtorEq, false_or, true_and]
    constructor
    · rintro ⟨a, ha, rfl, rfl⟩
      exact ⟨a, ha, rfl, rfl⟩
    · rintro ⟨a, ha, rfl, rfl⟩
      exact ⟨a, ha, rfl, rfl⟩

end Arena

end HiApp.TaskFlow
