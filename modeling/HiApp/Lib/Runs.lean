import Mathlib.Algebra.GroupWithZero.Nat
import Mathlib.Data.List.Induction

/-!
# Runs of a transition function

A system is a partial step function: `step s a` is the state after action `a`,
or `none` when `a` is not enabled in `s`.  A schedule is a list of actions.
The two predicates `StatesMeet` and `StepsMeet` speak about everything a
schedule passes through, so that a property of all reachable states and a
condition on all steps taken can be compared along one run.
-/

namespace HiApp.Runs

/-! Concrete schedules run over the first few `Fin n`.  A numeral there mentions a
proof of `n ≠ 0`; with a name it is the same term in every schedule. -/

instance neZero_one : NeZero (1 : ℕ) := ⟨Nat.succ_ne_zero 0⟩

instance neZero_two : NeZero (2 : ℕ) := ⟨Nat.succ_ne_zero 1⟩

instance neZero_three : NeZero (3 : ℕ) := ⟨Nat.succ_ne_zero 2⟩

instance neZero_four : NeZero (4 : ℕ) := ⟨Nat.succ_ne_zero 3⟩

variable {σ α : Type*} {step : σ → α → Option σ}

/-- The state a schedule leads to, if all of its actions are enabled in turn. -/
def run (step : σ → α → Option σ) : σ → List α → Option σ
  | s, [] => some s
  | s, a :: as => (step s a).bind fun t ↦ run step t as

/-- Every state the schedule passes through, the first and the last included,
satisfies `P`. -/
def StatesMeet (step : σ → α → Option σ) (P : σ → Prop) (s : σ)
    (as : List α) : Prop :=
  ∀ pre, pre <+: as → ∀ u, run step s pre = some u → P u

/-- Every action of the schedule satisfies `C` in the state it is taken in. -/
def StepsMeet (step : σ → α → Option σ) (C : σ → α → Prop) (s : σ)
    (as : List α) : Prop :=
  ∀ pre a, pre ++ [a] <+: as → ∀ u, run step s pre = some u → C u a

@[simp] theorem run_nil (s : σ) : run step s [] = some s := rfl

theorem run_append (s : σ) (as bs : List α) :
    run step s (as ++ bs) = (run step s as).bind fun t ↦ run step t bs := by
  induction as generalizing s with
  | nil => rfl
  | cons a as ih =>
      cases hstep : step s a with
      | none => simp [run, hstep]
      | some t => simp [run, hstep, ih]

theorem run_concat_eq_some_iff {s t : σ} {as : List α} {a : α} :
    run step s (as ++ [a]) = some t ↔
      ∃ u, run step s as = some u ∧ step u a = some t := by
  rw [run_append, Option.bind_eq_some_iff]
  simp only [run, Option.bind_eq_some_iff, Option.some.injEq, exists_eq_right]

theorem StatesMeet.head {P : σ → Prop} {s : σ} {as : List α} (h : StatesMeet step P s as) :
    P s :=
  h [] List.nil_prefix s rfl

theorem statesMeet_nil {P : σ → Prop} {s : σ} :
    StatesMeet step P s [] ↔ P s := by
  constructor
  · intro h
    exact h.head
  · intro h pre hpre u hu
    rw [List.prefix_nil.mp hpre, run_nil, Option.some.injEq] at hu
    exact hu ▸ h

theorem stepsMeet_nil {C : σ → α → Prop} {s : σ} : StepsMeet step C s [] := by
  intro pre a hpre
  simp at hpre

theorem StepsMeet.of_prefix {C : σ → α → Prop} {s : σ} {pre as : List α}
    (h : StepsMeet step C s as) (hpre : pre <+: as) : StepsMeet step C s pre := by
  intro front a hfront
  exact h front a (hfront.trans hpre)

theorem statesMeet_cons_of_eq {P : σ → Prop} {s t : σ} {a : α} {as : List α}
    (hstep : step s a = some t) :
    StatesMeet step P s (a :: as) ↔ P s ∧ StatesMeet step P t as := by
  constructor
  · intro h
    refine ⟨h.head, fun pre hpre u hu ↦ ?_⟩
    refine h (a :: pre) (List.cons_prefix_cons.mpr ⟨rfl, hpre⟩) u ?_
    rw [run, hstep]
    exact hu
  · rintro ⟨hs, h⟩ pre hpre u hu
    cases pre with
    | nil => exact Option.some.inj hu ▸ hs
    | cons b pre =>
        obtain ⟨rfl, hrest⟩ := List.cons_prefix_cons.mp hpre
        rw [run, hstep] at hu
        exact h pre hrest u hu

theorem statesMeet_concat {P : σ → Prop} {s : σ} {as : List α} {a : α} :
    StatesMeet step P s (as ++ [a]) ↔
      StatesMeet step P s as ∧
        ∀ t, run step s (as ++ [a]) = some t → P t := by
  constructor
  · intro h
    exact ⟨fun pre hpre ↦ h pre (hpre.trans (List.prefix_append as [a])),
      h (as ++ [a]) (List.prefix_refl _)⟩
  · rintro ⟨hinit, hlast⟩ pre hpre
    rcases List.prefix_concat_iff.mp hpre with rfl | hpre
    · exact hlast
    · exact hinit pre hpre

theorem stepsMeet_concat {C : σ → α → Prop} {s : σ} {as : List α} {a : α} :
    StepsMeet step C s (as ++ [a]) ↔
      StepsMeet step C s as ∧ ∀ u, run step s as = some u → C u a := by
  constructor
  · intro h
    exact ⟨fun pre b hpre ↦ h pre b (hpre.trans (List.prefix_append as [a])),
      h as a (List.prefix_refl _)⟩
  · rintro ⟨hinit, hlast⟩ pre b hpre u hu
    rcases List.prefix_concat_iff.mp hpre with heq | hpre
    · obtain ⟨rfl, hb⟩ := List.append_inj' heq rfl
      obtain rfl : b = a := by simpa using hb
      exact hlast u hu
    · exact hinit pre b hpre u hu

theorem stepsMeet_cons {C : σ → α → Prop} {s : σ} {a : α} {as : List α} :
    StepsMeet step C s (a :: as) ↔
      C s a ∧ ∀ t, step s a = some t → StepsMeet step C t as := by
  constructor
  · intro h
    refine ⟨h [] a (by simp) s rfl, ?_⟩
    intro t ht pre b hpre u hu
    refine h (a :: pre) b (by simpa using hpre) u ?_
    simpa [run, ht] using hu
  · rintro ⟨hhead, htail⟩ pre b hpre u hu
    cases pre with
    | nil =>
        obtain rfl : b = a := by simpa using hpre
        exact Option.some.inj hu ▸ hhead
    | cons c pre =>
        obtain ⟨rfl, hrest⟩ : c = a ∧ pre ++ [b] <+: as :=
          List.cons_prefix_cons.mp hpre
        obtain ⟨t, ht, hu⟩ := Option.bind_eq_some_iff.mp hu
        exact htail t ht pre b hrest u hu

/-- What is met all along is met by the rest from where the front leads to. -/
theorem StepsMeet.of_append {C : σ → α → Prop} {s t : σ} {front rest : List α}
    (h : StepsMeet step C s (front ++ rest)) (hrun : run step s front = some t) :
    StepsMeet step C t rest := by
  intro pre a hpre u hu
  apply h (front ++ pre) a
  · rw [List.append_assoc]
    exact (List.prefix_append_right_inj front).mpr hpre
  · rw [run_append, hrun, Option.bind_some, hu]

theorem exists_run_of_prefix {s t : σ} {pre as : List α} (hpre : pre <+: as)
    (hrun : run step s as = some t) : ∃ u, run step s pre = some u := by
  obtain ⟨rest, rfl⟩ := hpre
  rw [run_append] at hrun
  obtain ⟨u, hu, -⟩ := Option.bind_eq_some_iff.mp hrun
  exact ⟨u, hu⟩

/-- A condition on the steps of one schedule can be tried out. -/
instance decidableStepsMeet {C : σ → α → Prop} [∀ s a, Decidable (C s a)] :
    ∀ s as, Decidable (StepsMeet step C s as)
  | _, [] => isTrue stepsMeet_nil
  | s, a :: as =>
      match hstep : step s a with
      | none => decidable_of_iff (C s a) (by simp [stepsMeet_cons, hstep])
      | some t =>
          have : Decidable (StepsMeet step C t as) := decidableStepsMeet t as
          decidable_of_iff (C s a ∧ StepsMeet step C t as)
            (by simp [stepsMeet_cons, hstep])

/-- What can be decided of the state that one schedule leads to. -/
theorem exists_run_of_any {P : σ → Prop} [DecidablePred P] {s : σ} {as : List α}
    (h : (run step s as).any (fun t ↦ decide (P t)) = true) :
    ∃ t, run step s as = some t ∧ P t := by
  obtain ⟨t, hrun, ht⟩ := (Option.any_eq_true _ _).mp h
  exact ⟨t, hrun, of_decide_eq_true ht⟩

theorem exists_ok_run_of_any {ε : Type*} {P : σ → Prop} [DecidablePred P]
    {init : Except ε σ} {as : List α}
    (h : (init.toOption.bind fun s ↦ run step s as).any (fun t ↦ decide (P t)) = true) :
    ∃ s, init = .ok s ∧ ∃ t, run step s as = some t ∧ P t := by
  cases init with
  | error e => simp [Except.toOption] at h
  | ok s => exact ⟨s, rfl, exists_run_of_any h⟩

theorem stepsMeet_of_forall_mem {C : α → Prop} {s : σ} {as : List α}
    (h : ∀ a ∈ as, C a) : StepsMeet step (fun _ ↦ C) s as := by
  intro pre a hpre _ _
  exact h a (hpre.subset (by simp))

/-- A condition on the actions alone is met by all of them. -/
theorem forall_mem_of_stepsMeet {C : α → Prop} {s t : σ} {as : List α}
    (hrun : run step s as = some t) (h : StepsMeet step (fun _ ↦ C) s as) : ∀ a ∈ as, C a := by
  intro a ha
  obtain ⟨pre, post, rfl⟩ := List.append_of_mem ha
  rw [run_append, Option.bind_eq_some_iff] at hrun
  obtain ⟨u, hu, -⟩ := hrun
  exact h pre a (by simp) u hu

theorem exists_run_of_total (htotal : ∀ s a, ∃ t, step s a = some t) (s : σ) (as : List α) :
    ∃ t, run step s as = some t := by
  induction as generalizing s with
  | nil => exact ⟨s, rfl⟩
  | cons a as ih =>
      obtain ⟨u, hu⟩ := htotal s a
      obtain ⟨t, ht⟩ := ih u
      exact ⟨t, by simp [run, hu, ht]⟩

theorem stepsMeet_true {s : σ} {as : List α} :
    StepsMeet step (fun _ _ ↦ True) s as :=
  fun _ _ _ _ _ ↦ trivial

/-- What every step meeting `C` preserves holds at the end of every run whose
steps all meet `C`. -/
theorem run_invariant {I : σ → Prop} {C : σ → α → Prop} {s t : σ}
    {as : List α}
    (hstep : ∀ u a v, I u → C u a → step u a = some v → I v)
    (hs : I s) (hC : StepsMeet step C s as) (hrun : run step s as = some t) :
    I t := by
  induction as using List.reverseRecOn generalizing t with
  | nil =>
      rw [run_nil, Option.some.injEq] at hrun
      exact hrun ▸ hs
  | append_singleton as a ih =>
      obtain ⟨u, hu, hua⟩ := run_concat_eq_some_iff.mp hrun
      obtain ⟨hinit, hlast⟩ := stepsMeet_concat.mp hC
      exact hstep u a t (ih hinit hu) (hlast u hu) hua

theorem run_invariant' {I : σ → Prop} {s t : σ} {as : List α}
    (hstep : ∀ u a v, I u → step u a = some v → I v)
    (hs : I s) (hrun : run step s as = some t) : I t :=
  run_invariant (C := fun _ _ ↦ True) (fun u a v hu _ ↦ hstep u a v hu) hs
    stepsMeet_true hrun

/-- What is kept between the actions so far and the state is kept by a run. -/
theorem run_history {R : List α → σ → Prop} {s t : σ} {as : List α}
    (hstep : ∀ pre u a v, R pre u → step u a = some v → R (pre ++ [a]) v)
    (hs : R [] s) (hrun : run step s as = some t) : R as t := by
  induction as using List.reverseRecOn generalizing t with
  | nil =>
      rw [run_nil, Option.some.injEq] at hrun
      exact hrun ▸ hs
  | append_singleton as a ih =>
      obtain ⟨u, hu, hua⟩ := run_concat_eq_some_iff.mp hrun
      exact hstep as u a t (ih hu) hua

/-- A run is simulated by the fold of an abstract step over its actions. -/
theorem run_simulation {τ : Type*} {R : τ → σ → Prop} {g : τ → α → τ} {c : τ} {s t : σ}
    {as : List α} (hstep : ∀ c u a v, R c u → step u a = some v → R (g c a) v)
    (hs : R c s) (hrun : run step s as = some t) : R (as.foldl g c) t := by
  refine run_history (R := fun as t ↦ R (as.foldl g c) t) ?_ hs hrun
  intro pre u a v hu hua
  rw [List.foldl_append]
  exact hstep _ u a v hu hua

/-- It then holds in every state of such a run, with all that follows from it. -/
theorem statesMeet_of_stepsMeet {I P : σ → Prop} {C : σ → α → Prop} {s : σ} {as : List α}
    (hstep : ∀ u a v, I u → C u a → step u a = some v → I v) (himp : ∀ u, I u → P u)
    (hs : I s) (hC : StepsMeet step C s as) : StatesMeet step P s as := by
  intro pre hpre u hu
  exact himp u (run_invariant hstep hs (hC.of_prefix hpre) hu)

/-- Where an invariant holds, one condition on the steps may follow from another. -/
theorem stepsMeet_of_imp {I : σ → Prop} {C D E : σ → α → Prop} {s : σ} {as : List α}
    (hstep : ∀ u a v, I u → E u a → step u a = some v → I v)
    (himp : ∀ u a, I u → E u a → C u a → D u a) (hs : I s) (hE : StepsMeet step E s as)
    (hC : StepsMeet step C s as) : StepsMeet step D s as := by
  intro pre a hpre u hu
  have hIu : I u := run_invariant hstep hs
    (hE.of_prefix ((List.prefix_append pre [a]).trans hpre)) hu
  exact himp u a hIu (hE pre a hpre u hu) (hC pre a hpre u hu)

/-- When every action of a kind makes a measure smaller, every state leads to one
in which no action of the kind is enabled. -/
theorem exists_halting_run {C : α → Prop} (μ : σ → ℕ)
    (hμ : ∀ u a v, C a → step u a = some v → μ v < μ u) (s : σ) :
    ∃ as t, (∀ a ∈ as, C a) ∧ run step s as = some t ∧
      ∀ a, C a → step t a = none := by
  induction hn : μ s using Nat.strongRecOn generalizing s with
  | ind n ih =>
      by_cases hhalt : ∀ a, C a → step s a = none
      · exact ⟨[], s, by simp, rfl, hhalt⟩
      · push Not at hhalt
        obtain ⟨a, ha, hne⟩ := hhalt
        obtain ⟨v, hv⟩ := Option.ne_none_iff_exists'.mp hne
        obtain ⟨as, t, has, hrun, ht⟩ := ih (μ v) (hn ▸ hμ s a v ha hv) v rfl
        refine ⟨a :: as, t, ?_, by simp [run, hv, hrun], ht⟩
        intro b hb
        rcases List.mem_cons.mp hb with rfl | hb
        · exact ha
        · exact has b hb

/-- If, on states that satisfy an invariant and for actions that meet `D`, a step
keeps `P` exactly when it meets `C`, then a run whose actions all meet `D` stays
inside `P` exactly when all of its steps meet `C`.  The invariant has to be kept
by the steps inside `P` only. -/
theorem statesMeet_iff_stepsMeet {I P : σ → Prop} {C D : σ → α → Prop}
    {s t : σ} {as : List α}
    (hinv : ∀ u a v, I u → P u → P v → D u a → step u a = some v → I v)
    (hexact : ∀ u a v, I u → P u → D u a → step u a = some v → (P v ↔ C u a))
    (hs : I s) (hP : P s) (hD : StepsMeet step D s as)
    (hrun : run step s as = some t) :
    StatesMeet step P s as ↔ StepsMeet step C s as := by
  -- the invariant travels along the part of the run that is inside `P`
  suffices h : (StatesMeet step P s as ↔ StepsMeet step C s as) ∧
      (StatesMeet step P s as → I t ∧ P t) from h.1
  induction as using List.reverseRecOn generalizing t with
  | nil =>
      rw [run_nil, Option.some.injEq] at hrun
      subst hrun
      exact ⟨⟨fun _ ↦ stepsMeet_nil, fun _ ↦ statesMeet_nil.mpr hP⟩,
        fun _ ↦ ⟨hs, hP⟩⟩
  | append_singleton as a ih =>
      obtain ⟨u, hu, hua⟩ := run_concat_eq_some_iff.mp hrun
      obtain ⟨hinit, hDa⟩ := stepsMeet_concat.mp hD
      obtain ⟨hiff, hlast⟩ := ih hinit hu
      have hone : (∀ v, run step s (as ++ [a]) = some v → P v) ↔ P t := by
        simp [hrun]
      have hcond : (∀ v, run step s as = some v → C v a) ↔ C u a := by
        simp [hu]
      rw [statesMeet_concat, stepsMeet_concat, hone, hcond, ← hiff]
      refine ⟨and_congr_right fun hpre ↦ ?_, ?_⟩
      · obtain ⟨hIu, hPu⟩ := hlast hpre
        exact hexact u a t hIu hPu (hDa u hu) hua
      · rintro ⟨hpre, hPt⟩
        obtain ⟨hIu, hPu⟩ := hlast hpre
        exact ⟨hinv u a t hIu hPu hPt (hDa u hu) hua, hPt⟩

/-- If a step reaches `P` exactly when it starts in `P` and meets `C`, then a
run ends in `P` exactly when all of its steps meet `C`. -/
theorem meets_iff_stepsMeet {I P : σ → Prop} {C : σ → α → Prop} {s t : σ}
    {as : List α} (hinv : ∀ u a v, I u → step u a = some v → I v)
    (hexact : ∀ u a v, I u → step u a = some v → (P v ↔ P u ∧ C u a))
    (hs : I s) (hP : P s) (hrun : run step s as = some t) :
    P t ↔ StepsMeet step C s as := by
  induction as using List.reverseRecOn generalizing t with
  | nil =>
      rw [run_nil, Option.some.injEq] at hrun
      subst hrun
      exact iff_of_true hP stepsMeet_nil
  | append_singleton as a ih =>
      obtain ⟨u, hu, hua⟩ := run_concat_eq_some_iff.mp hrun
      have hIu : I u := run_invariant' hinv hs hu
      have hcond : (∀ v, run step s as = some v → C v a) ↔ C u a := by
        simp [hu]
      rw [hexact u a t hIu hua, stepsMeet_concat, hcond, ih hu]

end HiApp.Runs
