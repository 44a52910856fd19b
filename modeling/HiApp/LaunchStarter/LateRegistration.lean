import HiApp.LaunchStarter.Latches

/-!
# Late registration

A task may be added while others have already finished.  Those are to be counted
off its latch when it is added, and the others when they finish: every finished
dependency once.
-/

namespace HiApp.LaunchStarter

open Runs

variable {τ κ : Type*} [DecidableEq τ] [DecidableEq κ] (L : Launch τ κ)

namespace Book

variable {L} {b : Book τ κ} {t d : τ}

open Classical in
/-- The entry counts every finished dependency once: of a task that is added, as
many entries are recorded as have a finished task, and a class completes again
only when no waiting task is registered for it. -/
def AccountsFor (L : Launch τ κ) (b : Book τ κ) : Entry τ → Prop
  | .add t => b.isRunning t = false →
      (L.dependsOn t).countP (fun c ↦ decide (c ∈ b.recorded)) =
        (L.dependsOn t).countP (fun c ↦ decide (b.ClassFinished L c))
  | .complete d => b.ClassFinished L (L.decl d).cls →
      ∀ t ∈ b.children (L.decl d).cls, b.isRunning t = false →
        b.Satisfied L t
  | .run _ | .record _ => True

/-- The latch of every task that was added and is not running yet counts its
unsatisfied entries. -/
def Exact (L : Launch τ κ) (b : Book τ κ) : Prop :=
  ∀ t, 0 < b.added t → b.isRunning t = false →
    b.mDepends t = b.unsatisfied L t

namespace Exact

/-- A first call of `addTask` keeps the latches exact if and only if the record
counts what has finished. -/
theorem add_iff (h : b.Exact L) (hreg : b.Registered L) (hzero : b.added t = 0) :
    (b.enter L (.add t)).Exact L ↔ b.AccountsFor L (.add t) := by
  classical
  have hsum := unsatisfied_add (L := L) (b := b) (t := t)
  have hlatch : (b.enter L (.add t)).mDepends t = (L.dependsOn t).length -
      (L.dependsOn t).countP (fun c ↦ decide (c ∈ b.recorded)) := by
    simp [enter, hreg.fresh t hzero]
  have hle : (L.dependsOn t).countP (fun c ↦ decide (c ∈ b.recorded)) ≤
      (L.dependsOn t).length := List.countP_le_length
  have hsame : ∀ u, (b.enter L (.add t)).unsatisfied L u = b.unsatisfied L u :=
    fun _ ↦ rfl
  constructor
  · intro hexact hrunning
    have heq := hexact t (by simp [enter]) hrunning
    rw [hlatch, hsame] at heq
    omega
  · intro haccounts u hadded hrunning
    by_cases hut : u = t
    · subst hut
      have heq := haccounts hrunning
      rw [hlatch, hsame]
      omega
    · have hother := h u (by simpa [enter, hut] using hadded) hrunning
      rw [hsame]
      simpa [enter, hut] using hother

/-- A completion keeps the latches exact if and only if it is the first of its
class or finds nobody waiting. -/
theorem complete_iff (h : b.Exact L) (hreg : b.Registered L)
    (honce : ∀ t, b.added t ≤ 1) :
    (b.enter L (.complete d)).Exact L ↔ b.AccountsFor L (.complete d) := by
  have hlatch : ∀ u, (b.enter L (.complete d)).mDepends u =
      b.mDepends u - (b.children (L.decl d).cls).count u := fun _ ↦ rfl
  by_cases hfirst : b.ClassFinished L (L.decl d).cls
  · have hsame : ∀ u, (b.enter L (.complete d)).unsatisfied L u =
        b.unsatisfied L u := fun _ ↦ unsatisfied_complete_again hfirst
    constructor
    · intro hexact _ t ht hrunning
      have hpos := List.count_pos_iff.mpr ht
      have hadded : 0 < b.added t := by
        apply Nat.pos_of_ne_zero
        intro hzero
        rw [hreg.count, hzero, Nat.zero_mul] at hpos
        exact Nat.lt_irrefl _ hpos
      have hbefore := h t hadded hrunning
      have hafter := hexact t hadded hrunning
      rw [hlatch, hsame] at hafter
      exact unsatisfied_eq_zero_iff.mp (by omega)
    · intro haccounts u hadded hrunning
      rw [hlatch, hsame, h u hadded hrunning]
      by_cases hmem : u ∈ b.children (L.decl d).cls
      · rw [unsatisfied_eq_zero_iff.mpr (haccounts hfirst u hmem hrunning),
          Nat.zero_sub]
      · rw [List.count_eq_zero_of_not_mem hmem, Nat.sub_zero]
  · refine iff_of_true ?_ (fun hagain ↦ absurd hagain hfirst)
    intro u hadded hrunning
    have hadd : b.added u = 1 := Nat.le_antisymm (honce u) hadded
    have hsum := unsatisfied_complete_first (t := u) hfirst
    have hbefore := h u hadded hrunning
    rw [hlatch, hreg.count, hadd, Nat.one_mul]
    omega

theorem enter_iff (h : b.Exact L) (hreg : b.Registered L)
    (honce : ∀ t, b.added t ≤ 1) (e : Entry τ)
    (hadd : ∀ t, e = .add t → b.added t = 0) :
    (b.enter L e).Exact L ↔ b.AccountsFor L e := by
  cases e with
  | add t => exact h.add_iff hreg (hadd t rfl)
  | complete d => exact h.complete_iff hreg honce
  | record t => exact iff_of_true h trivial
  | run t =>
      refine iff_of_true ?_ trivial
      intro u hadded hrunning
      by_cases hut : u = t
      · simp [Book.enter, hut] at hrunning
      · exact h u hadded (by simpa [Book.enter, hut] using hrunning)

end Exact

end Book

/-- The entry that the action makes counts every finished dependency once. -/
def Launch.AccountsOnce (s : State τ κ) (a : Action τ) : Prop :=
  ∀ e ∈ L.entry s a, s.book.AccountsFor L e

/-- The latch of every task that was added and has not run yet is the number of
entries of its `dependsOn()` whose class belongs to no finished task. -/
def Launch.LatchesExact (s : State τ κ) : Prop :=
  ∀ t, .added t ∈ s.trace → (s.vars t).mIsRunning = false →
    (s.vars t).mDepends = s.book.unsatisfied L t

variable {L} in
omit [DecidableEq κ] in
theorem latchesExact_iff {s : State τ κ} : L.LatchesExact s ↔ s.book.Exact L := by
  simp only [Launch.LatchesExact, Book.Exact, State.book, List.count_pos_iff]

/-- Along every run that adds no task twice, the latches are exact if and only
if every step counts every finished dependency once. -/
theorem latchesExact_iff_accountsOnce {s : State τ κ} {as : List (Action τ)}
    (honce : ∀ t, as.count (.addTask t) ≤ 1)
    (hrun : run L.step L.newState as = some s) :
    StatesMeet L.step L.LatchesExact L.newState as ↔
      StepsMeet L.step L.AccountsOnce L.newState as := by
  refine statesMeet_iff_stepsMeet
    (I := fun s ↦ s.book.Registered L ∧ ∀ t, s.book.added t ≤ 1)
    (D := fun s a ↦ ∀ t, a = .addTask t → s.book.added t = 0) ?_ ?_
    ⟨registered_newState, fun _ ↦ Nat.zero_le _⟩ ?_ ?_ hrun
  · rintro u a v ⟨hreg, hadded⟩ - - hD hstep
    rw [L.book_step u hstep]
    cases hentry : L.entry u a with
    | none => exact ⟨hreg, hadded⟩
    | some e =>
        refine ⟨hreg.enter e, ?_⟩
        intro t
        cases e with
        | run w | complete w | record w => exact hadded t
        | add w =>
            by_cases htw : t = w
            · have hzero := hD w (entry_eq_add_iff.mp hentry)
              simp [Book.enter?, Book.enter, htw, hzero]
            · simpa [Book.enter?, Book.enter, htw] using hadded t
  · rintro u a v ⟨hreg, hadded⟩ hexact hD hstep
    rw [latchesExact_iff] at hexact ⊢
    rw [L.book_step u hstep]
    cases hentry : L.entry u a with
    | none => exact iff_of_true hexact (by simp [Launch.AccountsOnce, hentry])
    | some e =>
        have hcond : L.AccountsOnce u a ↔ u.book.AccountsFor L e := by
          simp [Launch.AccountsOnce, hentry]
        rw [hcond]
        refine hexact.enter_iff hreg hadded e ?_
        rintro t rfl
        exact hD t (entry_eq_add_iff.mp hentry)
  · intro t ht
    simp [Launch.newState] at ht
  · rintro pre a hpre u hu t rfl
    have hcount := (hpre.sublist.count_le (.addTask t)).trans (honce t)
    rw [List.count_append, ← added_of_run hu] at hcount
    simp only [List.count_singleton_self] at hcount
    omega

def pair : Launch (Fin 2) (Fin 2) where
  decl t := { cls := t, dependsOn := if t = 1 then some [0] else none }
  getSimpleName c := toString c

def lateRun : List (Action (Fin 2)) :=
  [.addTask 0, .start, .main, .pool 0, .pool 0, .pool 0, .pool 0, .addTask 1]

theorem latchesExact_iff_accountsOnce_pair :
    (∀ t, lateRun.count (.addTask t) ≤ 1) ∧
    ∃ s, run pair.step pair.newState lateRun = some s ∧
      (StatesMeet pair.step pair.LatchesExact pair.newState lateRun ↔
        StepsMeet pair.step pair.AccountsOnce pair.newState lateRun) := by
  refine ⟨by decide, _, rfl, ?_⟩
  exact @latchesExact_iff_accountsOnce (Fin 2) (Fin 2) _ _ pair _ lateRun
    (by decide) rfl

/-- The first task finishes without being recorded, as nobody waits for it, and
the second is added then: its latch counts a finished task. -/
theorem late_task_not_satisfied :
    Function.Injective (fun t ↦ (pair.decl t).cls) ∧
    (∀ t, lateRun.count (.addTask t) ≤ 1) ∧
    ∃ s, run pair.step pair.newState lateRun = some s ∧
      (s.vars 0).mIsFinished = true ∧ (s.vars 1).mIsRunning = false ∧
      (s.vars 1).mDepends = 1 ∧ ¬ pair.LatchesExact s := by
  refine ⟨fun t u htu ↦ htu, by decide, ?_⟩
  obtain ⟨s, hrun, hfinished, hrunning, hdepends, hadded, hsat⟩ :
      ∃ s, run pair.step pair.newState lateRun = some s ∧
        (s.vars 0).mIsFinished = true ∧ (s.vars 1).mIsRunning = false ∧
        (s.vars 1).mDepends = 1 ∧ .added 1 ∈ s.trace ∧
        s.book.Satisfied pair 1 :=
    exists_run_of_any (by decide)
  refine ⟨s, hrun, hfinished, hrunning, hdepends, ?_⟩
  intro hexact
  have hlatch := hexact 1 hadded hrunning
  rw [hdepends, Book.unsatisfied_eq_zero_iff.mpr hsat] at hlatch
  exact absurd hlatch (by decide)

end HiApp.LaunchStarter
