import Mathlib.Logic.Function.Basic
import Mathlib.Data.List.Basic

/-!
# Fragment transactions

A container of fragments that is changed by transactions.  They are queued and carried
out in order; a transaction with a name goes on a back stack, and popping it undoes its
operations in reverse.
-/

namespace HiApp.FragmentManager

variable {φ ν : Type*}

inductive Op (φ : Type*) where
  | hide (f : φ)
  | add (f : φ)
  | show (f : φ)
  deriving DecidableEq

/-- The fragments that are added, with the last one at the end.  Adding one twice is an
error. -/
structure Container (φ : Type*) where
  added : List φ := []
  hidden : φ → Bool := fun _ ↦ false
  crashed : Bool := false

structure Record (φ ν : Type*) where
  name : ν
  ops : List (Op φ)

/-- What has been carried out.  The top of the back stack is in front. -/
structure Executed (φ ν : Type*) where
  container : Container φ := {}
  backStack : List (Record φ ν) := []

inductive Pending (φ ν : Type*) where
  | commit (ops : List (Op φ)) (name : Option ν)
  | popBackStack (name : ν)

structure Manager (φ ν : Type*) where
  executed : Executed φ ν := {}
  pending : List (Pending φ ν) := []

variable [DecidableEq φ]

namespace Container

def Visible (c : Container φ) (f : φ) : Prop := f ∈ c.added ∧ c.hidden f = false

def exec (c : Container φ) : Op φ → Container φ
  | .hide f => { c with hidden := Function.update c.hidden f true }
  | .add f =>
      if f ∈ c.added then { c with crashed := true } else { c with added := c.added ++ [f] }
  | .show f => { c with hidden := Function.update c.hidden f false }

def undo (c : Container φ) : Op φ → Container φ
  | .hide f => { c with hidden := Function.update c.hidden f false }
  | .add f => { c with added := c.added.erase f }
  | .show f => { c with hidden := Function.update c.hidden f true }

def execAll (c : Container φ) (ops : List (Op φ)) : Container φ := ops.foldl exec c

/-- The operations are undone from the last to the first. -/
def undoAll (c : Container φ) (ops : List (Op φ)) : Container φ := ops.reverse.foldl undo c

end Container

variable [DecidableEq ν]

namespace Executed

/-- The number of entries from the top that popping a name removes: those up to the first
one with the name, and the next ones as long as they have it too. -/
def depth (backStack : List (Record φ ν)) (name : ν) : ℕ :=
  match backStack.findIdx? (fun r ↦ r.name = name) with
  | none => 0
  | some index =>
      index + 1 + ((backStack.drop (index + 1)).takeWhile fun r ↦ r.name = name).length

def popBackStack (e : Executed φ ν) (name : ν) : Executed φ ν where
  container := (e.backStack.take (depth e.backStack name)).foldl
    (fun c r ↦ c.undoAll r.ops) e.container
  backStack := e.backStack.drop (depth e.backStack name)

def execute (e : Executed φ ν) : Pending φ ν → Executed φ ν
  | .commit ops name =>
      { container := e.container.execAll ops
        backStack := (name.map (Record.mk · ops)).toList ++ e.backStack }
  | .popBackStack name => e.popBackStack name

end Executed

/-- The state once all that is queued has been carried out. -/
def Manager.settled (m : Manager φ ν) : Executed φ ν := m.pending.foldl Executed.execute m.executed

def Manager.enqueue (m : Manager φ ν) (p : Pending φ ν) : Manager φ ν :=
  { m with pending := m.pending ++ [p] }

/-- The first of the queue is carried out. -/
def Manager.executeNext (m : Manager φ ν) : Option (Manager φ ν) :=
  match m.pending with
  | [] => none
  | p :: ps => some { executed := m.executed.execute p, pending := ps }

@[simp] theorem Manager.settled_enqueue (m : Manager φ ν) (p : Pending φ ν) :
    (m.enqueue p).settled = m.settled.execute p := by
  simp [Manager.settled, Manager.enqueue]

theorem Manager.settled_executeNext {m m' : Manager φ ν} (h : m.executeNext = some m') :
    m'.settled = m.settled := by
  unfold executeNext at h
  split at h
  · cases h
  · rename_i p ps hpending
    obtain rfl := Option.some.inj h
    simp [settled, hpending]

theorem Manager.mem_pending_of_executeNext {m m' : Manager φ ν} {p : Pending φ ν}
    (h : m.executeNext = some m') (hp : p ∈ m'.pending) : p ∈ m.pending := by
  unfold executeNext at h
  split at h
  · cases h
  · rename_i first rest hpending
    obtain rfl := Option.some.inj h
    exact hpending ▸ List.mem_cons_of_mem first hp

namespace Executed

variable {name : ν}

omit [DecidableEq φ] in
theorem depth_of_forall_ne {backStack : List (Record φ ν)}
    (h : ∀ r ∈ backStack, r.name ≠ name) : depth backStack name = 0 := by
  have hnone : backStack.findIdx? (fun r ↦ r.name = name) = none := by
    simpa [List.findIdx?_eq_none_iff] using h
  simp [depth, hnone]

/-- A name that no entry has is popped without effect. -/
theorem popBackStack_of_forall_ne {e : Executed φ ν}
    (h : ∀ r ∈ e.backStack, r.name ≠ name) : e.popBackStack name = e := by
  simp [popBackStack, depth_of_forall_ne h]

omit [DecidableEq φ] in
theorem depth_cons {r : Record φ ν} {rs : List (Record φ ν)} (hname : r.name = name)
    (h : ∀ r ∈ rs, r.name ≠ name) : depth (r :: rs) name = 1 := by
  have hwhile : rs.takeWhile (fun r ↦ decide (r.name = name)) = [] := by
    cases rs with
    | nil => rfl
    | cons r' rs => simp [h r' List.mem_cons_self]
  simp [depth, List.findIdx?_cons, hname, hwhile]

/-- The name of the top entry alone. -/
theorem popBackStack_cons {c : Container φ} {r : Record φ ν} {rs : List (Record φ ν)}
    (hname : r.name = name) (h : ∀ r ∈ rs, r.name ≠ name) :
    popBackStack { container := c, backStack := r :: rs } name =
      { container := c.undoAll r.ops, backStack := rs } := by
  simp [popBackStack, depth_cons hname h]

end Executed

namespace Container

variable {c : Container φ}

omit [DecidableEq ν] in
/-- Hiding fragments one after another. -/
theorem execAll_hide (c : Container φ) (fs : List φ) :
    (c.execAll (fs.map .hide)).added = c.added ∧
      (c.execAll (fs.map .hide)).crashed = c.crashed ∧
      ∀ g, (c.execAll (fs.map .hide)).hidden g = (decide (g ∈ fs) || c.hidden g) := by
  induction fs generalizing c with
  | nil => exact ⟨rfl, rfl, fun g ↦ by simp [execAll]⟩
  | cons f fs ih =>
      obtain ⟨hadded, hcrashed, hhidden⟩ := ih (c.exec (.hide f))
      refine ⟨hadded, hcrashed, fun g ↦ (hhidden g).trans ?_⟩
      by_cases hg : g = f
      · simp [exec, hg]
      · simp [exec, hg]

omit [DecidableEq ν] in
/-- Undoing this shows them, whether or not they were visible before. -/
theorem undoAll_hide (c : Container φ) (fs : List φ) :
    (c.undoAll (fs.map .hide)).added = c.added ∧
      (c.undoAll (fs.map .hide)).crashed = c.crashed ∧
      ∀ g, (c.undoAll (fs.map .hide)).hidden g = (decide (g ∉ fs) && c.hidden g) := by
  induction fs generalizing c with
  | nil => exact ⟨rfl, rfl, fun g ↦ by simp [undoAll]⟩
  | cons f fs ih =>
      have hundo : c.undoAll ((f :: fs).map .hide) =
          (c.undoAll (fs.map .hide)).undo (.hide f) := by
        simp [undoAll, List.foldl_append]
      obtain ⟨hadded, hcrashed, hhidden⟩ := ih c
      rw [hundo]
      refine ⟨hadded, hcrashed, fun g ↦ ?_⟩
      by_cases hg : g = f
      · simp [undo, hg]
      · simp [undo, hg, hhidden]

omit [DecidableEq ν] in
theorem execAll_concat (c : Container φ) (ops : List (Op φ)) (op : Op φ) :
    c.execAll (ops ++ [op]) = (c.execAll ops).exec op := by
  rw [execAll, execAll, List.foldl_append, List.foldl_cons, List.foldl_nil]

omit [DecidableEq ν] in
/-- Hiding one fragment, or none, leaves the others. -/
theorem execAll_hide_frame (c : Container φ) (f : Option φ) :
    (c.execAll (f.map .hide).toList).added = c.added ∧
      ∀ g, f ≠ some g → (c.execAll (f.map .hide).toList).hidden g = c.hidden g := by
  cases f with
  | none => exact ⟨rfl, fun _ _ ↦ rfl⟩
  | some f =>
      refine ⟨rfl, fun g hg ↦ ?_⟩
      exact Function.update_of_ne (fun heq ↦ hg (congrArg some heq.symm)) _ _

omit [DecidableEq ν] in
theorem visible_hide {c : Container φ} {f g : φ} :
    (c.exec (.hide f)).Visible g ↔ c.Visible g ∧ g ≠ f := by
  by_cases hg : g = f
  · simp [Visible, exec, hg]
  · simp [Visible, exec, hg]

omit [DecidableEq ν] in
theorem visible_add {c : Container φ} {f g : φ} (hnew : f ∉ c.added) (hf : c.hidden f = false) :
    (c.exec (.add f)).Visible g ↔ c.Visible g ∨ g = f := by
  by_cases hg : g = f
  · simp [Visible, exec, hnew, hg, hf]
  · simp [Visible, exec, hnew, hg]

omit [DecidableEq ν] in
theorem visible_show {c : Container φ} {f g : φ} (hadded : f ∈ c.added) :
    (c.exec (.show f)).Visible g ↔ c.Visible g ∨ g = f := by
  by_cases hg : g = f
  · simp [Visible, exec, hadded, hg]
  · simp [Visible, exec, hg]

omit [DecidableEq ν] in
theorem mem_added_exec {c : Container φ} {f : φ} {op : Op φ} :
    f ∈ (c.exec op).added ↔ f ∈ c.added ∨ .add f = op := by
  rcases op with g | g | g
  · simp [exec]
  · by_cases hg : g ∈ c.added
    · simp only [exec, if_pos hg, Op.add.injEq, iff_self_or]
      rintro rfl
      exact hg
    · simp [exec, hg]
  · simp [exec]

omit [DecidableEq ν] in
theorem mem_added_execAll {c : Container φ} {f : φ} {ops : List (Op φ)} :
    f ∈ (c.execAll ops).added ↔ f ∈ c.added ∨ .add f ∈ ops := by
  induction ops generalizing c with
  | nil => simp [execAll]
  | cons op ops ih =>
      have hops : f ∈ ((c.exec op).execAll ops).added ↔ _ := ih
      rw [execAll, List.foldl_cons, ← execAll, hops, mem_added_exec, List.mem_cons, or_assoc]

end Container

/-! ## Commits only -/

/-- The fragments that a transaction adds. -/
def Pending.adds : Pending φ ν → List φ
  | .commit ops _ => ops.filterMap fun
      | .add f => some f
      | .hide _ | .show _ => none
  | .popBackStack _ => []

def Pending.IsCommit : Pending φ ν → Prop
  | .commit _ _ => True
  | .popBackStack _ => False

omit [DecidableEq φ] [DecidableEq ν] in
theorem Pending.mem_adds_commit {f : φ} {ops : List (Op φ)} {name : Option ν} :
    f ∈ (commit ops name).adds ↔ .add f ∈ ops := by
  rw [adds, List.mem_filterMap]
  constructor
  · rintro ⟨op, hop, hadd⟩
    rcases op with g | g | g
    · cases hadd
    · exact Option.some.inj hadd ▸ hop
    · cases hadd
  · intro hop
    exact ⟨_, hop, rfl⟩

/-- What is there in the end was there or is added by a transaction of the queue. -/
theorem Manager.mem_added_settled {m : Manager φ ν} {f : φ}
    (h : ∀ p ∈ m.pending, p.IsCommit) :
    f ∈ m.settled.container.added ↔
      f ∈ m.executed.container.added ∨ ∃ p ∈ m.pending, f ∈ p.adds := by
  obtain ⟨executed, pending⟩ := m
  unfold settled
  induction pending generalizing executed with
  | nil => simp
  | cons p pending ih =>
      obtain ⟨hp, hpending⟩ := List.forall_mem_cons.mp h
      cases p with
      | popBackStack name => exact hp.elim
      | commit ops name =>
          have hadds : .add f ∈ ops ↔ f ∈ (Pending.commit ops name).adds :=
            Pending.mem_adds_commit.symm
          rw [List.foldl_cons, ih _ hpending, Executed.execute, Container.mem_added_execAll, hadds]
          simp [or_assoc]

end HiApp.FragmentManager
