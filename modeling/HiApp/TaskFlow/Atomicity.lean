import HiApp.TaskFlow.Priority

/-!
# What a refused start leaves behind

The check writes the registry while it walks, and the pass over the block tasks
raises priorities id by id.  A start that is refused takes neither back.  So it
leaves everything as it was only when the fault is met before the first task that
is new to the registry and before the first priority that rises.
-/

namespace HiApp.TaskFlow

open Relation Runs

variable {τ : Type*} [DecidableEq τ]

/-- The exceptions that `traversalDependencyTreeAndInit` throws itself. -/
def TaskError.Reported : TaskError → Prop
  | .sameId _ | .loopback _ | .blockTaskNotInTree _ => True
  | .again _ | .indexOutOfBounds | .stackOverflow => False

namespace Arena

variable (A : Arena τ) (h : Heap τ) (info : Registry τ)

/-- The walk from `t` completes and finds nothing new. -/
def Settled (t : τ) : Prop :=
  ∀ a, ReflTransGen h.Edge t a → A.Known info a ∧ ¬ TransGen h.Edge a a

/-- On the way along known tasks, past settled ones, the walk with the given path meets
an id of another object or an edge back to the path. -/
inductive StopsEarly : List τ → τ → Prop
  | sameId {path : List τ} {t : τ} {i : TaskRuntimeInfo τ}
      (hid : info (A.decl t).id = some i) (hother : i.task ≠ t) : StopsEarly path t
  | loopback {path : List τ} {t : τ} {pre : List τ} {b : τ} {post : List τ}
      (hknown : A.Known info t) (hbehind : (h t).behindTasks = pre ++ b :: post)
      (hpre : ∀ x ∈ pre, A.Settled h info x) (hb : b ∈ path) : StopsEarly path t
  | deeper {path : List τ} {t : τ} {pre : List τ} {b : τ} {post : List τ}
      (hknown : A.Known info t) (hbehind : (h t).behindTasks = pre ++ b :: post)
      (hpre : ∀ x ∈ pre, A.Settled h info x) (hb : b ∉ path)
      (hrest : StopsEarly (path ++ [b]) b) : StopsEarly path t

variable {A h info} {blockTaskId : List String} {task : τ} {fuel : ℕ} {v v' : Visit τ}

/-! ## A walk that changes nothing -/

theorem settled_of_completed
    (hwalk : A.innerTraversalDependencyTreeAndInit h blockTaskId fuel v task = (v', none))
    (hsame : v'.taskRuntimeInfo = v.taskRuntimeInfo) (htask : task ∈ v.traversalVisitor) :
    A.Settled h v.taskRuntimeInfo task := by
  intro a ha
  refine ⟨?_, A.not_transGen_self hwalk htask ha⟩
  rw [← hsame]
  exact known_of_completed hwalk ha

omit [DecidableEq τ] in
theorem Settled.fits (hset : A.Settled h info task) : A.Fits h info task := by
  refine ⟨fun a ha ↦ (hset a ha).2, ?_, ?_⟩
  · intro a b ha hb hid
    obtain ⟨i, hi, rfl⟩ := (hset a ha).1
    obtain ⟨j, hj, rfl⟩ := (hset b hb).1
    rw [hid, hj] at hi
    exact congrArg TaskRuntimeInfo.task (Option.some.inj hi).symm
  · intro a ha i hi
    obtain ⟨j, hj, rfl⟩ := (hset a ha).1
    exact congrArg TaskRuntimeInfo.task (Option.some.inj (hi.symm.trans hj))

theorem unchanged_of_settled
    (hwalk : A.innerTraversalDependencyTreeAndInit h blockTaskId fuel v task = (v', none))
    (hset : A.Settled h v.taskRuntimeInfo task) :
    v'.taskRuntimeInfo = v.taskRuntimeInfo := by
  refine (Extends.antisymm (extends_inner hwalk) ?_).symm
  intro id i hi
  rcases (registry_of_completed hwalk id i).mp hi with hold | ⟨hnone, a, ha, rfl, -⟩
  · exact hold
  · obtain ⟨j, hj, -⟩ := (hset a ha).1
    simp [hnone] at hj

theorem extends_of_turns {bs : List τ} {e : Option TaskError}
    (hloop : forEach (A.visitBehindTask
      (A.innerTraversalDependencyTreeAndInit h blockTaskId fuel) task) v bs = (v', e)) :
    Extends v.taskRuntimeInfo v'.taskRuntimeInfo := by
  have hinv : Extends v.taskRuntimeInfo (forEach (A.visitBehindTask
      (A.innerTraversalDependencyTreeAndInit h blockTaskId fuel) task) v
        bs).1.taskRuntimeInfo := by
    refine forEach.invariant_always
      (I := fun u : Visit τ ↦ Extends v.taskRuntimeInfo u.taskRuntimeInfo) ?_
      (fun _ _ hi ↦ hi)
    intro u b _ hu
    exact hu.trans (extends_visitBehindTask rfl)
  rwa [hloop] at hinv

/-- Turns that complete and leave the registry alone were made for settled tasks. -/
theorem settled_of_turns {bs : List τ}
    (hloop : forEach (A.visitBehindTask
      (A.innerTraversalDependencyTreeAndInit h blockTaskId fuel) task) v bs = (v', none))
    (hsame : v'.taskRuntimeInfo = v.taskRuntimeInfo) :
    ∀ x ∈ bs, A.Settled h v.taskRuntimeInfo x := by
  induction bs generalizing v with
  | nil => simp
  | cons b bs ih =>
      obtain ⟨u, hturn, hrest⟩ := forEach.exists_of_cons_eq_none hloop
      have hu : u.taskRuntimeInfo = v.taskRuntimeInfo := by
        have hback := extends_of_turns hrest
        rw [hsame] at hback
        exact hback.antisymm (extends_visitBehindTask hturn)
      obtain ⟨-, w, hw, rfl⟩ := A.visitBehindTask_completed hturn
      intro x hx
      rcases List.mem_cons.mp hx with rfl | hx
      · have hset := settled_of_completed hw hu (by simp)
        exact hset
      · rw [← hu]
        exact ih hrest (hsame.trans hu.symm) x hx

section

variable [Fintype τ]

/-- A walk that throws and leaves the registry alone stops early. -/
theorem stopsEarly_of_thrown {e : TaskError}
    (hwalk : A.innerTraversalDependencyTreeAndInit h blockTaskId fuel v task = (v', some e))
    (hsame : v'.taskRuntimeInfo = v.taskRuntimeInfo) (hnodup : v.traversalVisitor.Nodup)
    (hfuel : Fintype.card τ < fuel + v.traversalVisitor.length) :
    A.StopsEarly h v.taskRuntimeInfo v.traversalVisitor task := by
  induction fuel generalizing v task with
  | zero =>
      have hlength := hnodup.length_le_card
      omega
  | succ fuel ih =>
      rcases inner_thrown hwalk with hreg | ⟨info, pre, b, post, u, hreg, hbs, hpre, hturn⟩
      · rcases A.register_cases blockTaskId v.taskRuntimeInfo task with
          ⟨-, hcase⟩ | ⟨-, hcase⟩ | ⟨⟨i, hi, hother⟩, -⟩
        · simp [hcase] at hreg
        · simp [hcase] at hreg
        · exact .sameId hi hother
      · -- the registry grows at every stage and is the old one at the end
        have hext := extends_register hreg
        have hmid := extends_of_turns hpre
        have hend := extends_visitBehindTask hturn
        rw [hsame] at hend
        have hinfo : info = v.taskRuntimeInfo := (hmid.trans hend).antisymm hext
        subst hinfo
        have hu : u.taskRuntimeInfo = v.taskRuntimeInfo := hend.antisymm hmid
        have hvisitor : u.traversalVisitor = v.traversalVisitor :=
          traversalVisitor_of_turns hpre
        have hsettled := settled_of_turns hpre hu
        have hknown := known_of_register hreg
        rcases visitBehindTask_thrown hturn with ⟨hb, -, -⟩ | ⟨hb, hdeep⟩
        · exact .loopback hknown hbs hsettled (hvisitor ▸ hb)
        · rw [hvisitor, hu] at hdeep
          rw [hvisitor] at hb
          refine .deeper hknown hbs hsettled hb ?_
          refine ih hdeep hsame (nodup_concat hnodup hb) ?_
          rw [List.length_append, List.length_singleton]
          omega

/-- The walk from a settled task completes and leaves everything as it is. -/
theorem inner_of_settled (hset : A.Settled h v.taskRuntimeInfo task)
    (hnodup : v.traversalVisitor.Nodup)
    (hpath : ∀ x ∈ v.traversalVisitor, ReflTransGen h.Edge x task)
    (hfuel : Fintype.card τ < fuel + v.traversalVisitor.length) :
    A.innerTraversalDependencyTreeAndInit h blockTaskId fuel v task = (v, none) := by
  have hdone : ∃ w, A.innerTraversalDependencyTreeAndInit h blockTaskId fuel v task =
      (w, none) :=
    (hset.fits.inner .refl hnodup hpath hfuel).imp fun _ hw ↦ hw.1
  obtain ⟨w, hw⟩ := hdone
  have hinfo := unchanged_of_settled hw hset
  have hvisitor := A.traversalVisitor_of_completed hw
  rw [hw, Prod.mk.injEq]
  refine ⟨?_, rfl⟩
  cases w
  cases v
  simp_all

/-- So do the turns for settled tasks. -/
theorem turns_of_settled {bs : List τ} (hbs : ∀ x ∈ bs, h.Edge task x)
    (hset : ∀ x ∈ bs, A.Settled h v.taskRuntimeInfo x) (hnodup : v.traversalVisitor.Nodup)
    (hpath : ∀ x ∈ v.traversalVisitor, ReflTransGen h.Edge x task)
    (hfuel : Fintype.card τ < fuel + 1 + v.traversalVisitor.length) :
    forEach (A.visitBehindTask
      (A.innerTraversalDependencyTreeAndInit h blockTaskId fuel) task) v bs = (v, none) := by
  induction bs with
  | nil => rfl
  | cons b bs ih =>
      have hedge : h.Edge task b := hbs b (by simp)
      have hb : b ∉ v.traversalVisitor := by
        intro hmem
        exact (hset b (by simp) b .refl).2 (TransGen.tail' (hpath b hmem) hedge)
      have hwalk : A.innerTraversalDependencyTreeAndInit h blockTaskId fuel
          { v with traversalVisitor := v.traversalVisitor ++ [b] } b =
          ({ v with traversalVisitor := v.traversalVisitor ++ [b] }, none) := by
        refine inner_of_settled (hset b (by simp)) (nodup_concat hnodup hb)
          (path_concat hpath hedge) ?_
        rw [List.length_append, List.length_singleton]
        omega
      refine forEach.cons_eq_none_iff.mpr ⟨v, ?_, ih ?_ ?_⟩
      · simp [visitBehindTask, hb, hwalk, List.erase_append_right]
      · exact fun x hx ↦ hbs x (List.mem_cons_of_mem _ hx)
      · exact fun x hx ↦ hset x (List.mem_cons_of_mem _ hx)

/-- The first turns, for settled tasks, are made in vain: what the next turn does the
whole walk does. -/
theorem inner_of_turn {path pre post : List τ} {b : τ} {e : TaskError}
    (hknown : A.Known info task) (hbehind : (h task).behindTasks = pre ++ b :: post)
    (hpre : ∀ x ∈ pre, A.Settled h info x) (hnodup : path.Nodup)
    (hpath : ∀ x ∈ path, ReflTransGen h.Edge x task)
    (hfuel : Fintype.card τ < fuel + 1 + path.length)
    (hturn : A.visitBehindTask (A.innerTraversalDependencyTreeAndInit h blockTaskId fuel)
      task { taskRuntimeInfo := info, traversalVisitor := path } b = (v', some e)) :
    A.innerTraversalDependencyTreeAndInit h blockTaskId (fuel + 1)
      { taskRuntimeInfo := info, traversalVisitor := path } task = (v', some e) := by
  obtain ⟨i, hi, hsame⟩ := hknown
  have hregister : A.register blockTaskId info task = (info, none) := by
    simp [register, hi, hsame]
  rw [innerTraversalDependencyTreeAndInit, hregister, forEach.eq_some_iff]
  refine ⟨pre, b, post, _, hbehind, turns_of_settled ?_ hpre hnodup hpath hfuel, hturn⟩
  intro x hx
  simp [Heap.Edge, hbehind, hx]

/-- A walk that stops early throws and leaves the registry alone. -/
theorem thrown_of_stopsEarly {path : List τ} (hstop : A.StopsEarly h info path task)
    (hnodup : path.Nodup) (hpath : ∀ x ∈ path, ReflTransGen h.Edge x task)
    (hfuel : Fintype.card τ < fuel + path.length) :
    ∃ v' e, A.innerTraversalDependencyTreeAndInit h blockTaskId fuel
      { taskRuntimeInfo := info, traversalVisitor := path } task = (v', some e) ∧
      v'.taskRuntimeInfo = info := by
  induction hstop generalizing fuel with
  | @sameId path t i hid hother =>
      cases fuel with
      | zero =>
          have hlength := hnodup.length_le_card
          omega
      | succ fuel =>
          refine ⟨{ taskRuntimeInfo := info, traversalVisitor := path },
            .sameId (A.decl t).id, ?_, rfl⟩
          simp [innerTraversalDependencyTreeAndInit, register, hid, hother]
  | @loopback path t pre b post hknown hbehind hpre hb =>
      cases fuel with
      | zero =>
          have hlength := hnodup.length_le_card
          omega
      | succ fuel =>
          refine ⟨{ taskRuntimeInfo := info, traversalVisitor := path },
            .loopback (A.decl t).id, ?_, rfl⟩
          refine inner_of_turn hknown hbehind hpre hnodup hpath hfuel ?_
          simp [visitBehindTask, hb]
  | @deeper path t pre b post hknown hbehind hpre hb hrest ih =>
      cases fuel with
      | zero =>
          have hlength := hnodup.length_le_card
          omega
      | succ fuel =>
          have hedge : h.Edge t b := by
            simp [Heap.Edge, hbehind]
          have hfuel' : Fintype.card τ < fuel + (path ++ [b]).length := by
            rw [List.length_append, List.length_singleton]
            omega
          obtain ⟨v', e, hwalk, hinfo⟩ :=
            ih (nodup_concat hnodup hb) (path_concat hpath hedge) hfuel'
          refine ⟨v', e, ?_, hinfo⟩
          refine inner_of_turn hknown hbehind hpre hnodup hpath hfuel ?_
          simp [visitBehindTask, hb, hwalk]

/-! ## The whole call -/

/-- The task that an id stands for once the tree of `task` is registered. -/
def RegisteredAs (A : Arena τ) (h : Heap τ) (info : Registry τ) (task : τ) (id : String)
    (t : τ) : Prop :=
  (∃ i, info id = some i ∧ i.task = t) ∨
    info id = none ∧ ReflTransGen h.Edge task t ∧ (A.decl t).id = id

/-- The block id is registered by nobody, and the ids before it stand for tasks without
a loop above them. -/
def MissesBlock (A : Arena τ) (h : Heap τ) (info : Registry τ) (task : τ)
    (pre : List String) (id : String) : Prop :=
  (∀ t, ¬ A.RegisteredAs h info task id t) ∧
    ∀ y ∈ pre, ∃ t, A.RegisteredAs h info task y t ∧ h.NoLoopAbove t

omit [Fintype τ] in
theorem registeredAs_iff
    (hwalk : A.innerTraversalDependencyTreeAndInit h blockTaskId fuel v task = (v', none))
    (id : String) (t : τ) :
    A.RegisteredAs h v.taskRuntimeInfo task id t ↔
      ∃ i, v'.taskRuntimeInfo id = some i ∧ i.task = t := by
  constructor
  · rintro (⟨i, hi, rfl⟩ | ⟨hnone, ht, rfl⟩)
    · exact ⟨i, extends_inner hwalk id i hi, rfl⟩
    · exact known_of_completed hwalk ht
  · rintro ⟨i, hi, rfl⟩
    rcases (registry_of_completed hwalk id i).mp hi with hold | ⟨hnone, a, ha, rfl, rfl⟩
    · exact .inl ⟨i, hold, rfl⟩
    · exact .inr ⟨hnone, ha, rfl⟩

theorem missesBlock_iff {pre : List String} {id : String}
    (hwalk : A.innerTraversalDependencyTreeAndInit h blockTaskId fuel v task = (v', none)) :
    A.MissesBlock h v.taskRuntimeInfo task pre id ↔
      v'.taskRuntimeInfo id = none ∧
        ∃ h', A.raisePriorities v'.taskRuntimeInfo task h pre = (h', none) := by
  rw [raisePriorities_completed_iff A task, MissesBlock]
  simp only [registeredAs_iff hwalk]
  constructor
  · rintro ⟨hid, hpre⟩
    refine ⟨?_, ?_⟩
    · cases hi : v'.taskRuntimeInfo id with
      | none => rfl
      | some i => exact absurd ⟨i, hi, rfl⟩ (hid i.task)
    · intro y hy
      obtain ⟨t, ⟨i, hi, rfl⟩, hloop⟩ := hpre y hy
      exact ⟨i, hi, hloop⟩
  · rintro ⟨hid, hpre⟩
    refine ⟨?_, ?_⟩
    · rintro t ⟨i, hi, -⟩
      simp [hid] at hi
    · intro y hy
      obtain ⟨i, hi, hloop⟩ := hpre y hy
      exact ⟨i.task, ⟨i, hi, rfl⟩, hloop⟩

omit [DecidableEq τ] [Fintype τ] in
/-- A heap lifted only where the priority was the highest before is the old heap. -/
theorem eq_of_lifts {S : τ → Prop} {h' : Heap τ} (hlift : Heap.Lifts S h h')
    (hmax : ∀ x, S x → (h x).priority = intMaxValue) : h' = h := by
  funext x
  rcases hlift x with hx | ⟨hS, hx⟩
  · exact hx
  · rw [hx, ← hmax x hS]

/-- A refused start changes neither the registry nor a priority, and every root that was
accepted before is accepted after it. -/
def LeavesNothing (A : Arena τ) (h : Heap τ) (blockTaskId : List String) (info : Registry τ)
    (task : τ) : Prop :=
  ∀ h' info' e, A.traversalDependencyTreeAndInit h blockTaskId info task =
      ((h', info'), some e) → e.Reported →
    info' = info ∧ (∀ t, (h' t).priority = (h t).priority) ∧
    ∀ root, (A.innerTraversalDependencyTreeAndInit h blockTaskId (Fintype.card τ)
        { taskRuntimeInfo := info, traversalVisitor := [root] } root).2 = none →
      (A.innerTraversalDependencyTreeAndInit h' blockTaskId (Fintype.card τ)
        { taskRuntimeInfo := info', traversalVisitor := [root] } root).2 = none

/-- The tree is accepted, and the start can only be refused for a block id. -/
theorem leavesNothing_iff_of_completed {info : Registry τ}
    (hwalk : A.innerTraversalDependencyTreeAndInit h blockTaskId (Fintype.card τ)
      { taskRuntimeInfo := info, traversalVisitor := [task] } task = (v, none)) :
    A.LeavesNothing h blockTaskId info task ↔
      ∀ pre id post, blockTaskId = pre ++ id :: post → A.MissesBlock h info task pre id →
        A.Settled h info task ∧
          ∀ x, AboveIds h info pre x → (h x).priority = intMaxValue := by
  rw [LeavesNothing, traversal_of_completed hwalk]
  constructor
  · rintro hall pre id post rfl hmiss
    obtain ⟨hid, h', hpre⟩ := (missesBlock_iff hwalk).mp hmiss
    obtain ⟨hsame, hprio, -⟩ := hall h' v.taskRuntimeInfo
      (.blockTaskNotInTree (A.decl task).id)
      (by rw [raisePriorities_missing hpre hid post]) trivial
    refine ⟨settled_of_completed hwalk hsame (by simp), ?_⟩
    intro x hx
    rw [← hprio]
    rw [hsame] at hpre
    exact priority_of_raisePriorities hpre hx
  · intro hall h' info' e hresult hreported
    obtain ⟨⟨hh', rfl⟩, he⟩ : (_ = h' ∧ v.taskRuntimeInfo = info') ∧ _ = some e := by
      simpa using hresult
    have hraise : A.raisePriorities v.taskRuntimeInfo task h blockTaskId = (h', some e) :=
      Prod.ext hh' he
    obtain ⟨pre, id, post, hids, ⟨hid, hpre, -⟩ | rfl⟩ := raisePriorities_thrown hraise
    · obtain ⟨hset, hmax⟩ := hall pre id post hids
        ((missesBlock_iff hwalk).mpr ⟨hid, h', hpre⟩)
      have hsame : v.taskRuntimeInfo = info := unchanged_of_settled hwalk hset
      rw [hsame] at hpre ⊢
      obtain rfl : h' = h := eq_of_lifts (lifts_of_raisePriorities hpre) hmax
      exact ⟨rfl, fun _ ↦ rfl, fun _ hroot ↦ hroot⟩
    · exact hreported.elim

/-- The walk over the tree throws, and the heap is the old one. -/
theorem leavesNothing_iff_of_thrown {info : Registry τ} {e : TaskError}
    (hwalk : A.innerTraversalDependencyTreeAndInit h blockTaskId (Fintype.card τ)
      { taskRuntimeInfo := info, traversalVisitor := [task] } task = (v, some e)) :
    A.LeavesNothing h blockTaskId info task ↔ A.StopsEarly h info [task] task := by
  have hpath : ∀ x ∈ [task], ReflTransGen h.Edge x task := by
    intro x hx
    rw [List.mem_singleton.mp hx]
  have hfuel : Fintype.card τ < Fintype.card τ + [task].length := by
    rw [List.length_singleton]
    omega
  have hcall : A.traversalDependencyTreeAndInit h blockTaskId info task =
      ((h, v.taskRuntimeInfo), some e) := by
    simp only [traversalDependencyTreeAndInit, hwalk]
  rw [LeavesNothing, hcall]
  constructor
  · intro hall
    have hreported : e.Reported := by
      obtain ⟨id, rfl | rfl⟩ := inner_thrown_kind (List.nodup_singleton task) hfuel hwalk
      · trivial
      · trivial
    obtain ⟨hsame, -⟩ := hall h v.taskRuntimeInfo e rfl hreported
    exact stopsEarly_of_thrown hwalk hsame (List.nodup_singleton task) hfuel
  · intro hstop h' info' e' hresult _
    have hearly : ∃ w e, A.innerTraversalDependencyTreeAndInit h blockTaskId
        (Fintype.card τ) { taskRuntimeInfo := info, traversalVisitor := [task] } task =
          (w, some e) ∧ w.taskRuntimeInfo = info :=
      thrown_of_stopsEarly hstop (List.nodup_singleton task) hpath hfuel
    obtain ⟨w, e'', hw, hsame⟩ := hearly
    obtain ⟨⟨rfl, rfl⟩, -⟩ : (h = h' ∧ v.taskRuntimeInfo = info') ∧ _ := by
      simpa using hresult
    obtain rfl : v = w := (Prod.mk.inj (hwalk.symm.trans hw)).1
    rw [hsame]
    exact ⟨rfl, fun _ ↦ rfl, fun _ hroot ↦ hroot⟩

/-- A start that is refused leaves the registry and all priorities as they were, so that
whatever could be started before can be started after it, exactly when a fault of the
tree is met before a new task, and a missing block id in a tree that is known and
after block tasks whose dependencies have the highest priority already. -/
theorem refused_unchanged_iff (A : Arena τ) (h : Heap τ) (blockTaskId : List String)
    (info : Registry τ) (task : τ) :
    (∀ h' info' e, A.traversalDependencyTreeAndInit h blockTaskId info task =
        ((h', info'), some e) → e.Reported →
      info' = info ∧ (∀ t, (h' t).priority = (h t).priority) ∧
      ∀ root, (A.innerTraversalDependencyTreeAndInit h blockTaskId (Fintype.card τ)
          { taskRuntimeInfo := info, traversalVisitor := [root] } root).2 = none →
        (A.innerTraversalDependencyTreeAndInit h' blockTaskId (Fintype.card τ)
          { taskRuntimeInfo := info', traversalVisitor := [root] } root).2 = none) ↔
    (A.Fits h info task ∨ A.StopsEarly h info [task] task) ∧
    (A.Fits h info task → ∀ pre id post, blockTaskId = pre ++ id :: post →
      A.MissesBlock h info task pre id →
        A.Settled h info task ∧
          ∀ x, AboveIds h info pre x → (h x).priority = intMaxValue) := by
  have hfits := completed_iff_fits A h blockTaskId info task 0
  rcases hwalk : A.innerTraversalDependencyTreeAndInit h blockTaskId (Fintype.card τ)
    { taskRuntimeInfo := info, traversalVisitor := [task] } task with ⟨v, _ | e⟩
  · have hfit : A.Fits h info task := hfits.mp ⟨v, hwalk⟩
    simp only [hfit, true_or, true_and, true_imp_iff]
    exact leavesNothing_iff_of_completed hwalk
  · have hnot : ¬ A.Fits h info task := by
      rw [← hfits]
      rintro ⟨w, hw⟩
      simp [hwalk] at hw
    simp only [hnot, false_or, false_imp_iff, and_true]
    exact leavesNothing_iff_of_thrown hwalk

end

/-! ## A loop, and the same ids again -/

def twiceTheIds : Arena (Fin 4) := .plain fun t ↦ if t = 0 ∨ t = 2 then "a" else "b"

/-- `a` and `b` in a loop, and two new objects with their ids in a chain. -/
def loopAndChain : Heap (Fin 4) :=
  [Call.behind 0 1, .behind 1 0, .behind 2 3].foldl twiceTheIds.perform
    (Heap.fresh fun _ ↦ 0)

/-- The loop is refused, its tasks stay registered, and the corrected graph is refused
for their sake, although it would have been accepted before. -/
theorem refused_start_leaves_registry :
    let refused := twiceTheIds.traversalDependencyTreeAndInit loopAndChain []
      (fun _ ↦ none) 0
    refused.2 = some (.loopback "b") ∧
    (refused.1.2 "a").isSome ∧ (refused.1.2 "b").isSome ∧
    (twiceTheIds.traversalDependencyTreeAndInit loopAndChain [] (fun _ ↦ none) 2).2 = none ∧
    (twiceTheIds.traversalDependencyTreeAndInit loopAndChain [] refused.1.2 2).2 =
      some (.sameId "a") := by
  decide

end Arena

end HiApp.TaskFlow
