import HiApp.LaunchStarter.Latches

/-!
# Dependency safety

A task may run when its latch is at zero.  The latch never falls below the number
of unsatisfied entries as long as no notification pays for the entry of another
class.
-/

namespace HiApp.LaunchStarter

open Runs

variable {τ κ : Type*} [DecidableEq τ] [DecidableEq κ] (L : Launch τ κ)

namespace Book

variable {L} {b : Book τ κ} {t d : τ}

/-- A notification that an unsatisfied, not yet running task should not get: it
is added although it was before or although an entry is recorded that no
finished task answers, or a class completes again that it is registered for. -/
def PaysFor (L : Launch τ κ) (b : Book τ κ) : Entry τ → Prop
  | .add t => b.isRunning t = false →
      (b.added t = 0 ∨ b.Satisfied L t) ∧
        ∀ c ∈ L.dependsOn t, c ∈ b.recorded → b.ClassFinished L c
  | .complete d => b.ClassFinished L (L.decl d).cls →
      ∀ t ∈ b.children (L.decl d).cls, b.isRunning t = false →
        b.Satisfied L t
  | .run _ | .record _ => True

instance [Fintype τ] (b : Book τ κ) : ∀ e, Decidable (b.PaysFor L e)
  | .add t => inferInstanceAs (Decidable (b.isRunning t = false →
      (b.added t = 0 ∨ b.Satisfied L t) ∧
        ∀ c ∈ L.dependsOn t, c ∈ b.recorded → b.ClassFinished L c))
  | .complete d => inferInstanceAs (Decidable (
      b.ClassFinished L (L.decl d).cls → ∀ t ∈ b.children (L.decl d).cls,
        b.isRunning t = false → b.Satisfied L t))
  | .run _ | .record _ => inferInstanceAs (Decidable True)

/-- The latch of a task that is not running covers its unsatisfied entries, and
a task that is running has none. -/
structure Covered (L : Launch τ κ) (b : Book τ κ) : Prop where
  latch : ∀ t, b.isRunning t = false → b.unsatisfied L t ≤ b.mDepends t
  once : ∀ t, b.isRunning t = false → b.added t ≤ 1 ∨ b.unsatisfied L t = 0
  running : ∀ t, b.isRunning t = true → b.unsatisfied L t = 0

namespace Covered

open Classical in
theorem latch_add_first (hreg : b.Registered L) (hzero : b.added t = 0)
    (hrecorded : ∀ c ∈ L.dependsOn t, c ∈ b.recorded → b.ClassFinished L c) :
    b.unsatisfied L t ≤ (b.enter L (.add t)).mDepends t := by
  have hsum := unsatisfied_add (L := L) (b := b) (t := t)
  have hle : (L.dependsOn t).countP (fun c ↦ decide (c ∈ b.recorded)) ≤
      (L.dependsOn t).countP (fun c ↦ decide (b.ClassFinished L c)) := by
    refine List.countP_mono_left fun c hc hmem ↦ ?_
    simpa using hrecorded c hc (by simpa using hmem)
  have hlatch : (b.enter L (.add t)).mDepends t = (L.dependsOn t).length -
      (L.dependsOn t).countP (fun c ↦ decide (c ∈ b.recorded)) := by
    simp [enter, hreg.fresh t hzero]
  omega

theorem add (h : b.Covered L) (hreg : b.Registered L)
    (hpays : b.PaysFor L (.add t)) : (b.enter L (.add t)).Covered L := by
  refine ⟨?_, ?_, h.running⟩
  · intro u hu
    by_cases hut : u = t
    · subst hut
      obtain ⟨hzero | hsat, hrecorded⟩ := hpays hu
      · exact latch_add_first hreg hzero hrecorded
      · have hsame : (b.enter L (.add u)).unsatisfied L u = 0 :=
          unsatisfied_eq_zero_iff.mpr hsat
        exact hsame.trans_le (Nat.zero_le _)
    · have hlatch : (b.enter L (.add t)).mDepends u = b.mDepends u := by
        simp [enter, hut]
      rw [hlatch]
      exact h.latch u hu
  · intro u hu
    by_cases hut : u = t
    · subst hut
      rcases (hpays hu).1 with hzero | hsat
      · exact .inl (by simp [enter, hzero])
      · exact .inr (unsatisfied_eq_zero_iff.mpr hsat)
    · have hcount : (b.enter L (.add t)).added u = b.added u := by
        simp [enter, hut]
      rw [hcount]
      exact h.once u hu

theorem complete (h : b.Covered L) (hreg : b.Registered L)
    (hpays : b.PaysFor L (.complete d)) :
    (b.enter L (.complete d)).Covered L := by
  have hle : ∀ u, (b.enter L (.complete d)).unsatisfied L u ≤ b.unsatisfied L u :=
    fun u ↦ unsatisfied_complete_le
  refine ⟨?_, ?_, fun u hu ↦ Nat.le_zero.mp ((hle u).trans (h.running u hu).le)⟩
  · intro u hu
    have hcover := h.latch u hu
    have hlatch : (b.enter L (.complete d)).mDepends u =
        b.mDepends u - b.added u * (L.dependsOn u).count (L.decl d).cls := by
      simp [enter, hreg.count]
    rw [hlatch]
    rcases h.once u hu with hadded | hsat
    · by_cases hfirst : b.ClassFinished L (L.decl d).cls
      · -- the entry is paid already, so nothing registered for it may still wait
        by_cases hmem : u ∈ b.children (L.decl d).cls
        · have hsat := unsatisfied_eq_zero_iff.mpr (hpays hfirst u hmem hu)
          have := hle u
          omega
        · have hzero := List.count_eq_zero_of_not_mem hmem
          rw [hreg.count] at hzero
          rw [hzero]
          exact (hle u).trans hcover
      · have hsum := unsatisfied_complete_first (t := u) hfirst
        have hmul : b.added u * (L.dependsOn u).count (L.decl d).cls ≤
            1 * (L.dependsOn u).count (L.decl d).cls :=
          Nat.mul_le_mul_right _ hadded
        omega
    · have := hle u
      omega
  · intro u hu
    rcases h.once u hu with hadded | hsat
    · exact .inl hadded
    · exact .inr (Nat.le_zero.mp ((hle u).trans hsat.le))

theorem run (h : b.Covered L) (hlatch : b.mDepends t = 0) :
    (b.enter L (.run t)).Covered L := by
  have hother : ∀ u, (b.enter L (.run t)).isRunning u = false →
      b.isRunning u = false := by
    intro u hu
    by_cases hut : u = t
    · simp [Book.enter, hut] at hu
    · simpa [Book.enter, hut] using hu
  refine ⟨fun u hu ↦ h.latch u (hother u hu), fun u hu ↦ h.once u (hother u hu), ?_⟩
  intro u hu
  by_cases hbefore : b.isRunning u = true
  · exact h.running u hbefore
  · rw [Bool.not_eq_true] at hbefore
    obtain rfl : u = t := by
      by_contra hut
      simp [Book.enter, hut, hbefore] at hu
    have hcover := h.latch u hbefore
    rw [hlatch] at hcover
    exact Nat.le_zero.mp hcover

theorem enter (h : b.Covered L) (hreg : b.Registered L) {e : Entry τ}
    (hpays : b.PaysFor L e) (hrun : ∀ t, e = .run t → b.mDepends t = 0) :
    (b.enter L e).Covered L := by
  cases e with
  | add t => exact h.add hreg hpays
  | complete d => exact h.complete hreg hpays
  | record t => exact ⟨h.latch, h.once, h.running⟩
  | run t => exact h.run (hrun t rfl)

omit [DecidableEq τ] [DecidableEq κ] in
theorem unsatisfied_eq_zero (h : b.Covered L) (hlatch : b.mDepends t = 0) :
    b.unsatisfied L t = 0 := by
  cases hrunning : b.isRunning t with
  | true => exact h.running t hrunning
  | false => exact Nat.le_zero.mp (hlatch ▸ h.latch t hrunning)

end Covered

end Book

omit [DecidableEq κ] in
variable {L} in
theorem covered_newState : L.newState.book.Covered L := by
  refine ⟨fun t _ ↦ List.countP_le_length, fun t _ ↦ .inl (Nat.zero_le _), ?_⟩
  intro t ht
  simp [State.book, Launch.newState, Launch.newTask] at ht

/-- The entry that the action makes is paid for. -/
def Launch.PaysOnce (s : State τ κ) (a : Action τ) : Prop :=
  ∀ e ∈ L.entry s a, s.book.PaysFor L e

instance [Fintype τ] (s : State τ κ) (a : Action τ) : Decidable (L.PaysOnce s a) :=
  inferInstanceAs (Decidable (∀ e ∈ L.entry s a, s.book.PaysFor L e))

/-- In every run in which every notification is paid for, `run()` is called only
when for every class in `dependsOn()` a task of that class has finished. -/
theorem dependencies_finished_when_run {s s' : State τ κ} {as : List (Action τ)}
    {a : Action τ} (hpays : StepsMeet L.step L.PaysOnce L.newState as)
    (hrun : run L.step L.newState as = some s) (hstep : L.step s a = some s')
    {t : τ} (ht : s.trace.count (.ran t) < s'.trace.count (.ran t)) :
    ∀ c ∈ L.dependsOn t, ∃ d, (L.decl d).cls = c ∧
      (s.vars d).mIsFinished = true := by
  have hcovered : s.book.Covered L ∧ s.book.Registered L := by
    refine run_invariant
      (I := fun s ↦ s.book.Covered L ∧ s.book.Registered L) ?_ ?_ hpays hrun
    · rintro u b v ⟨hcovered, hreg⟩ hCu hub
      rw [L.book_step u hub]
      cases hentry : L.entry u b with
      | none => exact ⟨hcovered, hreg⟩
      | some e =>
          refine ⟨hcovered.enter hreg (hCu e hentry) ?_, hreg.enter e⟩
          rintro t rfl
          exact L.mDepends_eq_zero_of_run u t hub hentry
    · exact ⟨covered_newState, registered_newState⟩
  have hentry := entry_of_ran hstep ht
  have hlatch : s.book.mDepends t = 0 := L.mDepends_eq_zero_of_run s t hstep hentry
  exact Book.unsatisfied_eq_zero_iff.mp (hcovered.1.unsatisfied_eq_zero hlatch)

/-- Tasks of the classes `0`, `1` and `2`; the last depends on both others. -/
def join : Launch (Fin 3) (Fin 3) where
  decl t := { cls := t, dependsOn := if t = 2 then some [0, 1] else none }
  getSimpleName c := toString c

/-- Everything up to the wait of the last task, with the others finished. -/
def joinRun : List (Action (Fin 3)) :=
  [.addTask 0, .addTask 1, .addTask 2, .start, .main, .main, .main,
    .pool 2, .pool 0, .pool 0, .pool 0, .pool 1, .pool 1, .pool 1]

theorem dependencies_finished_when_run_join :
    ∃ s s', run join.step join.newState joinRun = some s ∧
      StepsMeet join.step join.PaysOnce join.newState joinRun ∧
      join.step s (.pool 2) = some s' ∧
      s.trace.count (.ran 2) < s'.trace.count (.ran 2) ∧
      ∀ c ∈ join.dependsOn 2, ∃ d, (join.decl d).cls = c ∧
        (s.vars d).mIsFinished = true := by
  have hpays : StepsMeet join.step join.PaysOnce join.newState joinRun := by
    decide
  refine ⟨_, _, rfl, hpays, rfl, by decide, ?_⟩
  exact @dependencies_finished_when_run (Fin 3) (Fin 3) _ _ join _ _ joinRun
    (.pool 2) hpays rfl rfl 2 (by decide)

/-- Two tasks `0` and `1` of one class, a task `2` of another, and `3` that
depends on both classes. -/
def twins : Launch (Fin 4) (Fin 3) where
  decl
    | 0 | 1 => { cls := 0 }
    | 2 => { cls := 1 }
    | 3 => { cls := 2, dependsOn := some [0, 1] }
  getSimpleName c := toString c

/-- Both twins finish and the latch of `3` is at zero, while `2` has not begun. -/
def twinsRun : List (Action (Fin 4)) :=
  [.addTask 0, .addTask 1, .addTask 2, .addTask 3, .start,
    .main, .main, .main, .main, .pool 3, .pool 0, .pool 0, .pool 0,
    .pool 2, .pool 2, .pool 2]

theorem run_before_dependency :
    ∃ s s', run twins.step twins.newState twinsRun = some s ∧
      twins.step s (.pool 3) = some s' ∧
      s.trace.count (.ran 3) < s'.trace.count (.ran 3) ∧
      ¬ ∀ c ∈ twins.dependsOn 3, ∃ d, (twins.decl d).cls = c ∧
        (s.vars d).mIsFinished = true :=
  ⟨_, _, rfl, rfl, by decide, by decide⟩

end HiApp.LaunchStarter
