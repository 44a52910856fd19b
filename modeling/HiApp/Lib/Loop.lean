import Mathlib.Data.List.Basic

/-!
# Loops whose body may throw

`forEach body s xs` runs `body` over a list with a threaded state and stops at
the first exception.  The state reached so far is kept when it stops, as in a
language with mutable fields.
-/

namespace HiApp

variable {σ α ε : Type*}

/-- Run `body` on the elements in turn until one throws. -/
def forEach (body : σ → α → σ × Option ε) : σ → List α → σ × Option ε
  | s, [] => (s, none)
  | s, x :: xs =>
      match body s x with
      | (t, some e) => (t, some e)
      | (t, none) => forEach body t xs

namespace forEach

variable {body : σ → α → σ × Option ε} {s t : σ} {x : α} {xs : List α}

@[simp] theorem nil_eq : forEach body s [] = (s, none) := rfl

theorem cons_eq : forEach body s (x :: xs) =
    (body s x).2.elim (forEach body (body s x).1 xs) fun e ↦ ((body s x).1, some e) := by
  rw [forEach]
  rcases body s x with ⟨t, _ | e⟩
  · rfl
  · rfl

theorem cons_of_some {e : ε} (hturn : body s x = (t, some e)) :
    forEach body s (x :: xs) = (t, some e) := by
  rw [cons_eq, hturn, Option.elim_some]

theorem cons_of_none (hturn : body s x = (t, none)) :
    forEach body s (x :: xs) = forEach body t xs := by
  rw [cons_eq, hturn, Option.elim_none]

theorem exists_of_cons_eq_none (hloop : forEach body s (x :: xs) = (t, none)) :
    ∃ u, body s x = (u, none) ∧ forEach body u xs = (t, none) := by
  rcases hturn : body s x with ⟨u, _ | e⟩
  · exact ⟨u, rfl, (cons_of_none hturn).symm.trans hloop⟩
  · rw [cons_of_some hturn] at hloop
    cases hloop

theorem cons_eq_none_iff :
    forEach body s (x :: xs) = (t, none) ↔
      ∃ u, body s x = (u, none) ∧ forEach body u xs = (t, none) := by
  constructor
  · exact exists_of_cons_eq_none
  · rintro ⟨u, hturn, hrest⟩
    rw [cons_of_none hturn]
    exact hrest

theorem invariant {I : σ → Prop}
    (hbody : ∀ u x v, x ∈ xs → I u → body u x = (v, none) → I v)
    (hs : I s) (hloop : forEach body s xs = (t, none)) : I t := by
  induction xs generalizing s with
  | nil =>
      obtain rfl : s = t := congrArg Prod.fst hloop
      exact hs
  | cons x xs ih =>
      obtain ⟨u, hu, hrest⟩ := exists_of_cons_eq_none hloop
      refine ih ?_ (hbody s x u (by simp) hs hu) hrest
      intro u x v hx
      exact hbody u x v (List.mem_cons_of_mem _ hx)

/-- What every turn preserves, whether it throws or not, holds of the state the
loop leaves. -/
theorem invariant_always {I : σ → Prop}
    (hbody : ∀ u x, x ∈ xs → I u → I (body u x).1) (hs : I s) :
    I (forEach body s xs).1 := by
  induction xs generalizing s with
  | nil => exact hs
  | cons x xs ih =>
      have hx := hbody s x (by simp) hs
      rcases hturn : body s x with ⟨u, _ | e⟩
      · rw [cons_of_none hturn]
        rw [hturn] at hx
        exact ih (fun u y hy ↦ hbody u y (List.mem_cons_of_mem _ hy)) hx
      · rw [cons_of_some hturn]
        rw [hturn] at hx
        exact hx

/-- A loop throws only what its turns throw. -/
theorem throws_only {I : σ → Prop} {E : ε → Prop}
    (hbody : ∀ u x, x ∈ xs → I u → I (body u x).1 ∧ ∀ e, (body u x).2 = some e → E e)
    (hs : I s) : I (forEach body s xs).1 ∧ ∀ e, (forEach body s xs).2 = some e → E e := by
  induction xs generalizing s with
  | nil => exact ⟨hs, by simp⟩
  | cons x xs ih =>
      have hx := hbody s x (by simp) hs
      rcases hturn : body s x with ⟨u, _ | e⟩
      · rw [cons_of_none hturn]
        rw [hturn] at hx
        exact ih (fun u y hy ↦ hbody u y (List.mem_cons_of_mem _ hy)) hx.1
      · rw [cons_of_some hturn]
        rw [hturn] at hx
        exact hx

/-- A loop whose turns all complete completes. -/
theorem completes {I : σ → Prop}
    (hbody : ∀ u x, x ∈ xs → I u → ∃ v, body u x = (v, none) ∧ I v) (hs : I s) :
    ∃ t, forEach body s xs = (t, none) ∧ I t := by
  induction xs generalizing s with
  | nil => exact ⟨s, rfl, hs⟩
  | cons x xs ih =>
      obtain ⟨u, hu, hI⟩ := hbody s x (by simp) hs
      obtain ⟨t, ht, hIt⟩ :=
        ih (fun v y hy ↦ hbody v y (List.mem_cons_of_mem _ hy)) hI
      exact ⟨t, (cons_of_none hu).trans ht, hIt⟩

/-- A loop that throws has completed some turns and thrown in the next. -/
theorem eq_some_iff {e : ε} :
    forEach body s xs = (t, some e) ↔ ∃ pre x post u, xs = pre ++ x :: post ∧
      forEach body s pre = (u, none) ∧ body u x = (t, some e) := by
  constructor
  · intro hloop
    induction xs generalizing s with
    | nil => simp at hloop
    | cons x xs ih =>
        rcases hturn : body s x with ⟨u, _ | e'⟩
        · rw [cons_of_none hturn] at hloop
          obtain ⟨pre, y, post, w, rfl, hpre, hy⟩ := ih hloop
          exact ⟨x :: pre, y, post, w, rfl, (cons_of_none hturn).trans hpre, hy⟩
        · rw [cons_of_some hturn] at hloop
          obtain ⟨rfl, he⟩ := Prod.mk.inj hloop
          exact ⟨[], x, xs, s, rfl, rfl, by rw [hturn, he]⟩
  · rintro ⟨pre, x, post, u, rfl, hpre, hx⟩
    induction pre generalizing s with
    | nil =>
        obtain rfl : s = u := congrArg Prod.fst hpre
        rw [List.nil_append, cons_of_some hx]
    | cons y pre ih =>
        obtain ⟨w, hw, hrest⟩ := exists_of_cons_eq_none hpre
        rw [List.cons_append, cons_of_none hw]
        exact ih hrest

theorem turn {I : σ → Prop}
    (hbody : ∀ u x v, x ∈ xs → I u → body u x = (v, none) → I v)
    (hs : I s) (hloop : forEach body s xs = (t, none)) (hx : x ∈ xs) :
    ∃ u v, I u ∧ body u x = (v, none) := by
  induction xs generalizing s with
  | nil => simp at hx
  | cons y ys ih =>
      obtain ⟨u, hu, hrest⟩ := exists_of_cons_eq_none hloop
      rcases List.mem_cons.mp hx with rfl | hx
      · exact ⟨s, u, hs, hu⟩
      · refine ih ?_ (hbody s y u (by simp) hs hu) hrest hx
        intro u z v hz
        exact hbody u z v (List.mem_cons_of_mem _ hz)

/-- In a loop that completes, what the turn of an element achieves and later
turns keep is there at the end. -/
theorem achieves {Q : α → σ → Prop}
    (hturn : ∀ u x v, x ∈ xs → body u x = (v, none) → Q x v)
    (hkeep : ∀ u x v y, Q y u → body u x = (v, none) → Q y v)
    (hloop : forEach body s xs = (t, none)) : ∀ x ∈ xs, Q x t := by
  induction xs generalizing s with
  | nil => simp
  | cons y ys ih =>
      obtain ⟨u, hu, hrest⟩ := exists_of_cons_eq_none hloop
      intro x hx
      rcases List.mem_cons.mp hx with rfl | hx
      · refine invariant ?_ (hturn s x u (by simp) hu) hrest
        intro u z v _ hQ hbody
        exact hkeep u z v x hQ hbody
      · refine ih ?_ hrest x hx
        intro u z v hz
        exact hturn u z v (List.mem_cons_of_mem _ hz)

/-- Two loops over one list whose bodies keep a relation and throw alike. -/
theorem related {σ' : Type*} {body' : σ' → α → σ' × Option ε} {s' : σ'}
    {R : σ → σ' → Prop}
    (hbody : ∀ u v x, R u v → R (body u x).1 (body' v x).1 ∧ (body u x).2 = (body' v x).2)
    (hs : R s s') : R (forEach body s xs).1 (forEach body' s' xs).1 ∧
      (forEach body s xs).2 = (forEach body' s' xs).2 := by
  induction xs generalizing s s' with
  | nil => exact ⟨hs, rfl⟩
  | cons x xs ih =>
      obtain ⟨hx, hthrow⟩ := hbody s s' x hs
      rw [cons_eq, cons_eq]
      rcases hturn : body s x with ⟨u, _ | e⟩
      · rcases hturn' : body' s' x with ⟨v, _ | e⟩
        · exact ih (by simpa [hturn, hturn'] using hx)
        · simp [hturn, hturn'] at hthrow
      · rcases hturn' : body' s' x with ⟨v, _ | e'⟩
        · simp [hturn, hturn'] at hthrow
        · exact ⟨by simpa [hturn, hturn'] using hx, by simpa [hturn, hturn'] using hthrow⟩

end forEach

end HiApp
