import HiApp.Lib.Runs
import HiApp.LaunchStarter.Book

/-!
# What the latches count

The latch of a task is meant to count the entries of its `dependsOn()` that no
finished task answers.  A latch is a bare number, though: it goes down once for
every notification, whichever task sent it.  This file says what single entries
into the book do to the count and to the latches.
-/

namespace HiApp.LaunchStarter

open Runs

variable {τ κ : Type*} (L : Launch τ κ)

namespace Book

def ClassFinished (b : Book τ κ) (c : κ) : Prop :=
  ∃ d, (L.decl d).cls = c ∧ b.isFinished d = true

instance [DecidableEq κ] [Fintype τ] (b : Book τ κ) (c : κ) :
    Decidable (b.ClassFinished L c) :=
  inferInstanceAs (Decidable (∃ d, (L.decl d).cls = c ∧ b.isFinished d = true))

/-- Every entry of `dependsOn()` has a finished task. -/
def Satisfied (b : Book τ κ) (t : τ) : Prop :=
  ∀ c ∈ L.dependsOn t, b.ClassFinished L c

instance [DecidableEq κ] [Fintype τ] (b : Book τ κ) (t : τ) :
    Decidable (b.Satisfied L t) :=
  inferInstanceAs (Decidable (∀ c ∈ L.dependsOn t, b.ClassFinished L c))

open Classical in
/-- The number of entries of `dependsOn()` whose class has no finished task. -/
noncomputable def unsatisfied (b : Book τ κ) (t : τ) : ℕ :=
  (L.dependsOn t).countP fun c ↦ !decide (b.ClassFinished L c)

variable {L} {b : Book τ κ} {t d : τ}

theorem unsatisfied_eq_zero_iff :
    b.unsatisfied L t = 0 ↔ b.Satisfied L t := by
  simp [unsatisfied, Satisfied, List.countP_eq_zero]

open Classical in
theorem unsatisfied_add : b.unsatisfied L t +
    (L.dependsOn t).countP (fun c ↦ decide (b.ClassFinished L c)) =
      (L.dependsOn t).length := by
  rw [Nat.add_comm, unsatisfied, List.length_eq_countP_add_countP
    (fun c ↦ decide (b.ClassFinished L c))]
  simp

variable [DecidableEq τ] [DecidableEq κ]

/-- The book knows who is registered for what, and has not touched the latches
of tasks that were never added. -/
structure Registered (L : Launch τ κ) (b : Book τ κ) : Prop where
  count : ∀ c t, (b.children c).count t = b.added t * (L.dependsOn t).count c
  fresh : ∀ t, b.added t = 0 → b.mDepends t = (L.dependsOn t).length

/-! ## Single entries -/

omit [DecidableEq τ] in
theorem countP_add_count {p q : κ → Bool} {k : κ}
    (hk : p k = true) (hq : ∀ c, q c = (p c && decide (c ≠ k))) (l : List κ) :
    l.countP q + l.count k = l.countP p := by
  induction l with
  | nil => rfl
  | cons c l ih =>
      rw [List.countP_cons, List.countP_cons, List.count_cons, hq]
      by_cases hck : c = k
      · simp [hck, hk]
        omega
      · simp [hck]
        omega

theorem classFinished_complete (c : κ) :
    (b.enter L (.complete d)).ClassFinished L c ↔
      b.ClassFinished L c ∨ c = (L.decl d).cls := by
  constructor
  · rintro ⟨u, rfl, hu⟩
    by_cases hud : u = d
    · exact .inr (by rw [hud])
    · exact .inl ⟨u, rfl, by simpa [enter, hud] using hu⟩
  · rintro (⟨u, rfl, hu⟩ | rfl)
    · refine ⟨u, rfl, ?_⟩
      by_cases hud : u = d <;> simp [enter, hud, hu]
    · exact ⟨d, rfl, by simp [enter]⟩

/-- The first completion of a class satisfies all entries of the class. -/
theorem unsatisfied_complete_first (hfirst : ¬ b.ClassFinished L (L.decl d).cls) :
    (b.enter L (.complete d)).unsatisfied L t +
      (L.dependsOn t).count (L.decl d).cls = b.unsatisfied L t := by
  refine countP_add_count (by simpa using hfirst) ?_ _
  intro c
  by_cases hc : c = (L.decl d).cls <;>
    simp [classFinished_complete, hc]

theorem unsatisfied_complete_again (hagain : b.ClassFinished L (L.decl d).cls) :
    (b.enter L (.complete d)).unsatisfied L t = b.unsatisfied L t := by
  refine List.countP_congr fun c _ ↦ ?_
  by_cases hc : c = (L.decl d).cls
  · simp [classFinished_complete, hc, hagain]
  · simp [classFinished_complete, hc]

theorem unsatisfied_complete_le :
    (b.enter L (.complete d)).unsatisfied L t ≤ b.unsatisfied L t := by
  by_cases hfirst : b.ClassFinished L (L.decl d).cls
  · exact (unsatisfied_complete_again hfirst).le
  · have hsum := unsatisfied_complete_first (t := t) hfirst
    omega

namespace Registered

theorem enter (h : b.Registered L) (e : Entry τ) : (b.enter L e).Registered L := by
  cases e with
  | run t | record t => exact ⟨h.count, h.fresh⟩
  | complete d =>
      refine ⟨h.count, ?_⟩
      intro t ht
      have hcount := h.count (L.decl d).cls t
      have hzero : b.added t = 0 := ht
      rw [hzero, Nat.zero_mul] at hcount
      simp [Book.enter, hcount, h.fresh t hzero]
  | add u =>
      refine ⟨?_, ?_⟩
      · intro c t
        have hcount := h.count c t
        by_cases htu : t = u
        · subst htu
          simp [Book.enter, hcount, Nat.add_mul]
        · simp [Book.enter, hcount, List.count_replicate, htu, Ne.symm htu]
      · intro t ht
        by_cases htu : t = u
        · simp [Book.enter, htu] at ht
        · simp only [Book.enter, Function.update_of_ne htu] at ht ⊢
          exact h.fresh t ht

end Registered

end Book

section

variable [DecidableEq τ] [DecidableEq κ] {L} {s : State τ κ}
  {as : List (Action τ)}

theorem registered_newState : L.newState.book.Registered L := by
  constructor
  · intro c t
    simp [State.book, Launch.newState]
  · intro t _
    rfl

omit [DecidableEq τ] [DecidableEq κ] in
theorem entry_eq_add_iff {s : State τ κ} {a : Action τ} {t : τ} :
    L.entry s a = some (.add t) ↔ a = .addTask t := by
  have hjob : ∀ job, L.jobEntry job ≠ some (.add t) := by
    intro job
    unfold Launch.jobEntry
    split <;> try split
    all_goals simp
  cases a with
  | addTask u | start | executeTask u | call u => simp [Launch.entry]
  | main =>
      simp only [Launch.entry, reduceCtorEq, iff_false]
      split
      · exact hjob _
      · split <;> simp
      · simp
  | pool i =>
      simp only [Launch.entry, reduceCtorEq, iff_false]
      split
      · exact hjob _
      · simp

theorem added_of_run (hrun : run L.step L.newState as = some s) (t : τ) :
    s.book.added t = as.count (.addTask t) := by
  induction as using List.reverseRecOn generalizing s with
  | nil =>
      obtain rfl := Option.some.inj hrun
      rfl
  | append_singleton as a ih =>
      obtain ⟨u, hu, hua⟩ := run_concat_eq_some_iff.mp hrun
      rw [List.count_append, ← ih hu, L.book_step u hua]
      cases hentry : L.entry u a with
      | none =>
          have hne : a ≠ .addTask t := fun ha ↦ by
            simp [entry_eq_add_iff.mpr ha] at hentry
          simp [Book.enter?, hne]
      | some e =>
          by_cases ha : a = .addTask t
          · obtain rfl : e = .add t := by
              simpa [entry_eq_add_iff.mpr ha] using hentry.symm
            simp [Book.enter?, Book.enter, ha]
          · have hne : e ≠ .add t := fun he ↦ ha (entry_eq_add_iff.mp (he ▸ hentry))
            cases e with
            | add v =>
                have htv : t ≠ v := fun h ↦ hne (h ▸ rfl)
                simp [Book.enter?, Book.enter, ha, htv]
            | run v | complete v | record v =>
                simp [Book.enter?, Book.enter, ha]

theorem entry_of_ran {s s' : State τ κ} {a : Action τ} {t : τ}
    (hstep : L.step s a = some s')
    (ht : s.trace.count (.ran t) < s'.trace.count (.ran t)) :
    L.entry s a = some (.run t) := by
  have hbook := L.book_step s hstep
  have hgrown : s.book.ran t < s'.book.ran t := ht
  rw [hbook] at hgrown
  cases hentry : L.entry s a with
  | none => simp [hentry, Book.enter?] at hgrown
  | some e =>
      rw [hentry] at hgrown
      cases e with
      | run u =>
          by_cases htu : t = u
          · rw [htu]
          · simp [Book.enter?, Book.enter, htu] at hgrown
      | add u | complete u | record u => simp [Book.enter?, Book.enter] at hgrown

end

end HiApp.LaunchStarter
