import HiApp.Lib.Runs
import HiApp.Lib.SparseArray

/-!
# The pages of the home page

`HomePagerAdapter` keeps the fragments that it has made under the ids of their categories.
When the tabs have changed it takes the index of a fragment there, which is in the order of
the ids, for the position of its page.
-/

namespace HiApp.Home

open Runs

/-- `PagerAdapter.POSITION_UNCHANGED` and `POSITION_NONE`. -/
inductive ItemPosition where
  | unchanged
  | none
  deriving DecidableEq

/-- A tab is the id of its category, and a fragment the number of those made before it. -/
structure HomePagerAdapter where
  tabs : List ℤ := []
  fragments : SparseArray ℕ := .empty
  created : ℕ := 0

namespace HomePagerAdapter

/-- `none` where the list of tabs throws. -/
def getItem (a : HomePagerAdapter) (position : ℤ) : Option (HomePagerAdapter × ℕ) :=
  (if 0 ≤ position then a.tabs[position.toNat]? else none).map fun categoryId ↦
    match a.fragments.get categoryId with
    | some fragment => (a, fragment)
    | none =>
        ({ a with fragments := a.fragments.put categoryId a.created, created := a.created + 1 },
          a.created)

def getItemPosition (a : HomePagerAdapter) (object : ℕ) :
    Option (HomePagerAdapter × ItemPosition) :=
  let indexOfValue : ℤ := match a.fragments.indexOfValue object with
    | some index => index
    | none => -1
  (a.getItem indexOfValue).map fun r ↦
    (r.1, if r.2 = object then .unchanged else .none)

def update (a : HomePagerAdapter) (list : List ℤ) : HomePagerAdapter := { a with tabs := list }

variable {a b : HomePagerAdapter} {position object : ℕ} {categoryId : ℤ}

/-- What the pager asks for, and new tabs, of different categories. -/
inductive Action where
  | getItem (position : ℤ)
  | getItemPosition (object : ℕ)
  | update (list : List ℤ)
  deriving DecidableEq

def step (a : HomePagerAdapter) : Action → Option HomePagerAdapter
  | .getItem position => (a.getItem position).map Prod.fst
  | .getItemPosition object => (a.getItemPosition object).map Prod.fst
  | .update list => if list.Nodup then some (a.update list) else none

/-- The adapter answers, and the page is unchanged when the category is at its position. -/
def Right (a : HomePagerAdapter) (object position : ℕ) (categoryId : ℤ) : Prop :=
  ∃ b answer, a.getItemPosition object = some (b, answer) ∧
    (answer = .unchanged ↔ a.tabs[position]? = some categoryId)

instance : Decidable (a.Right object position categoryId) :=
  decidable_of_iff
    ((a.getItemPosition object).any fun r ↦
      decide (r.2 = .unchanged ↔ a.tabs[position]? = some categoryId)) (by
    simp [Right, Option.any_eq_true])

/-- How many fragments there are for smaller ids. -/
def rank (a : HomePagerAdapter) (categoryId : ℤ) : ℕ := a.fragments.keys.countP (· < categoryId)

/-- All fragments are different objects. -/
structure Inv (a : HomePagerAdapter) : Prop where
  nodup : a.fragments.values.Nodup
  lt : ∀ fragment ∈ a.fragments.values, fragment < a.created

/-- A fragment is found, or made for a category that had none. -/
theorem getItem_cases {position : ℤ} {fragment : ℕ} (h : a.getItem position = some (b, fragment)) :
    0 ≤ position ∧ ∃ categoryId, a.tabs[position.toNat]? = some categoryId ∧
      (b = a ∧ a.fragments.get categoryId = some fragment ∨
        categoryId ∉ a.fragments.keys ∧ fragment = a.created ∧
          b = { a with
            fragments := a.fragments.put categoryId a.created
            created := a.created + 1 }) := by
  obtain ⟨categoryId, htab, hresult⟩ := Option.map_eq_some_iff.mp h
  obtain ⟨hnonneg, htab⟩ := Option.ite_none_right_eq_some.mp htab
  refine ⟨hnonneg, categoryId, htab, ?_⟩
  cases hget : a.fragments.get categoryId with
  | some found =>
      rw [hget] at hresult
      obtain ⟨rfl, rfl⟩ := Prod.mk.inj hresult
      exact .inl ⟨rfl, rfl⟩
  | none =>
      rw [hget] at hresult
      obtain ⟨rfl, rfl⟩ := Prod.mk.inj hresult
      exact .inr ⟨SparseArray.get_eq_none_iff.mp hget, rfl, rfl⟩

theorem inv_init : ({} : HomePagerAdapter).Inv :=
  ⟨List.nodup_nil, fun _ hmem ↦ absurd hmem List.not_mem_nil⟩

theorem Inv.getItem (h : a.Inv) {position : ℤ} {fragment : ℕ}
    (hitem : a.getItem position = some (b, fragment)) : b.Inv := by
  obtain ⟨-, categoryId, -, ⟨rfl, -⟩ | ⟨hnew, rfl, rfl⟩⟩ := getItem_cases hitem
  · exact h
  have hperm : (a.fragments.put categoryId a.created).values.Perm
      (a.created :: a.fragments.values) := SparseArray.values_put_perm hnew
  constructor
  · refine hperm.nodup_iff.mpr (List.nodup_cons.mpr ⟨fun hmem ↦ ?_, h.nodup⟩)
    exact Nat.lt_irrefl _ (h.lt _ hmem)
  · intro fragment hmem
    rcases List.mem_cons.mp (hperm.mem_iff.mp hmem) with rfl | hmem
    · exact Nat.lt_succ_self _
    · exact Nat.lt_succ_of_lt (h.lt fragment hmem)

theorem getItem_of_getItemPosition {answer : ItemPosition}
    (h : a.getItemPosition object = some (b, answer)) :
    ∃ position fragment, a.getItem position = some (b, fragment) := by
  obtain ⟨⟨c, fragment⟩, hitem, heq⟩ := Option.map_eq_some_iff.mp h
  obtain ⟨rfl, -⟩ := Prod.mk.inj heq
  exact ⟨_, fragment, hitem⟩

/-- Questions are answered by `getItem`. -/
theorem step_cases {action : Action} (hstep : a.step action = some b) :
    (∃ position fragment, a.getItem position = some (b, fragment)) ∨
      ∃ list, action = .update list ∧ list.Nodup ∧ b = a.update list := by
  cases action with
  | getItem position =>
      obtain ⟨⟨c, fragment⟩, hitem, rfl⟩ := Option.map_eq_some_iff.mp hstep
      exact .inl ⟨position, fragment, hitem⟩
  | getItemPosition object =>
      obtain ⟨⟨c, answer⟩, hanswer, rfl⟩ := Option.map_eq_some_iff.mp hstep
      exact .inl (getItem_of_getItemPosition hanswer)
  | update list =>
      obtain ⟨hnodup, hb⟩ := Option.ite_none_right_eq_some.mp hstep
      obtain rfl := Option.some.inj hb
      exact .inr ⟨list, rfl, hnodup, rfl⟩

theorem Inv.step (h : a.Inv) {action : Action} (hstep : a.step action = some b) : b.Inv := by
  rcases step_cases hstep with ⟨position, fragment, hitem⟩ | ⟨list, -, -, rfl⟩
  · exact h.getItem hitem
  · exact ⟨h.nodup, h.lt⟩

/-- Asking leaves the tabs and the fragments that are there. -/
theorem frame_of_getItem {position : ℤ} {fragment : ℕ}
    (hitem : a.getItem position = some (b, fragment)) :
    b.tabs = a.tabs ∧ ∀ categoryId object, a.fragments.get categoryId = some object →
      b.fragments.get categoryId = some object := by
  obtain ⟨-, categoryId, -, ⟨rfl, -⟩ | ⟨hnew, -, rfl⟩⟩ := getItem_cases hitem
  · exact ⟨rfl, fun _ _ hget ↦ hget⟩
  · refine ⟨rfl, fun categoryId' object hget ↦ ?_⟩
    rw [SparseArray.get_eq_some_iff] at hget ⊢
    exact (SparseArray.mem_entries_put hnew).mpr (.inr hget)

theorem Inv.get_eq_iff (h : a.Inv) (hobject : a.fragments.get categoryId = some object)
    {categoryId' : ℤ} :
    a.fragments.get categoryId' = some object ↔ categoryId' = categoryId := by
  constructor
  · intro hget
    rw [SparseArray.get_eq_some_iff] at hobject hget
    have heq := List.inj_on_of_nodup_map h.nodup hget hobject rfl
    exact (Prod.ext_iff.mp heq).1
  · rintro rfl
    exact hobject

/-- The fragment itself is found only at the place of its category. -/
theorem getItem_eq_object_iff (h : a.Inv) (hobject : a.fragments.get categoryId = some object)
    {index fragment : ℕ} (hitem : a.getItem index = some (b, fragment)) :
    fragment = object ↔ a.tabs[index]? = some categoryId := by
  obtain ⟨-, categoryId', htab, ⟨-, hget⟩ | ⟨hnew, rfl, -⟩⟩ := getItem_cases hitem
  all_goals
    rw [Int.toNat_natCast] at htab
    rw [htab, Option.some.injEq, ← h.get_eq_iff hobject]
  · rw [hget, Option.some.injEq]
  · rw [SparseArray.get_eq_none_iff.mpr hnew]
    have hmem : object ∈ a.fragments.values :=
      List.mem_map_of_mem (SparseArray.get_eq_some_iff.mp hobject)
    exact iff_of_false (Nat.ne_of_gt (h.lt object hmem)) (by simp)

theorem getItem_isSome_iff {index : ℕ} : (a.getItem index).isSome ↔ index < a.tabs.length := by
  simp [getItem]

theorem right_iff (h : a.Inv) (hobject : a.fragments.get categoryId = some object) :
    a.Right object position categoryId ↔ a.rank categoryId < a.tabs.length ∧
      (a.tabs[a.rank categoryId]? = some categoryId ↔ a.tabs[position]? = some categoryId) := by
  have hindex : a.fragments.indexOfValue object = some (a.rank categoryId) :=
    SparseArray.indexOfValue_of_get h.nodup hobject
  rw [← getItem_isSome_iff, Right, getItemPosition, hindex, Option.isSome_iff_exists]
  constructor
  · rintro ⟨b, answer, hanswer, hright⟩
    obtain ⟨⟨c, fragment⟩, hitem, heq⟩ := Option.map_eq_some_iff.mp hanswer
    obtain ⟨rfl, rfl⟩ := Prod.mk.inj heq
    refine ⟨⟨_, hitem⟩, ?_⟩
    rw [← hright, ← getItem_eq_object_iff h hobject hitem]
    simp
  · rintro ⟨⟨⟨c, fragment⟩, hitem⟩, hsame⟩
    refine ⟨c, _, by rw [hitem, Option.map_some], ?_⟩
    rw [← hsame, ← getItem_eq_object_iff h hobject hitem]
    simp

/-- In different places there are different categories. -/
theorem same_place_iff (hnodup : a.tabs.Nodup) {index : ℕ} :
    (a.tabs[index]? = some categoryId ↔ a.tabs[position]? = some categoryId) ↔
      index = position ∨ a.tabs[index]? ≠ some categoryId ∧
        a.tabs[position]? ≠ some categoryId := by
  constructor
  · intro hsame
    by_cases hthere : a.tabs[index]? = some categoryId
    · left
      obtain ⟨hlt, -⟩ := List.getElem?_eq_some_iff.mp hthere
      exact (List.getElem?_inj hlt hnodup).mp (hthere.trans (hsame.mp hthere).symm)
    · exact .inr ⟨hthere, fun hposition ↦ hthere (hsame.mpr hposition)⟩
  · rintro (rfl | ⟨hindex, hposition⟩)
    · exact Iff.rfl
    · exact iff_of_false hindex hposition

/-- Whatever is asked later. -/
theorem frame_of_run {actions : List Action} (hasks : ∀ list, .update list ∉ actions)
    (hrun : run step a actions = some b) :
    b.tabs = a.tabs ∧ ∀ categoryId object, a.fragments.get categoryId = some object →
      b.fragments.get categoryId = some object := by
  refine run_invariant (C := fun _ action ↦ ∀ list, action ≠ .update list)
    (I := fun u : HomePagerAdapter ↦ u.tabs = a.tabs ∧ ∀ categoryId object,
      a.fragments.get categoryId = some object → u.fragments.get categoryId = some object)
    ?_ ⟨rfl, fun _ _ hget ↦ hget⟩ (stepsMeet_of_forall_mem ?_) hrun
  · rintro u action v ⟨htabs, hkept⟩ hask hstep
    rcases step_cases hstep with ⟨place, fragment, hitem⟩ | ⟨list, rfl, -⟩
    · obtain ⟨htabs', hkept'⟩ := frame_of_getItem hitem
      exact ⟨htabs'.trans htabs, fun _ _ hget ↦ hkept' _ _ (hkept _ _ hget)⟩
    · exact absurd rfl (hask list)
  · rintro action hmem list rfl
    exact hasks list hmem

theorem inv_of_run {before : List Action} (hrun : run step {} before = some a) : a.Inv :=
  run_invariant' (fun _ _ _ hu hstep ↦ hu.step hstep) inv_init hrun

theorem get_of_getItem {fragment : ℕ} (hitem : a.getItem position = some (b, fragment))
    (htab : a.tabs[position]? = some categoryId) :
    b.fragments.get categoryId = some fragment := by
  obtain ⟨-, categoryId', htab', hcases⟩ := getItem_cases hitem
  rw [Int.toNat_natCast, htab, Option.some.injEq] at htab'
  subst htab'
  rcases hcases with ⟨rfl, hget⟩ | ⟨hnew, rfl, rfl⟩
  · exact hget
  · exact SparseArray.get_eq_some_iff.mpr ((SparseArray.mem_entries_put hnew).mpr (.inl rfl))

/-- After an update the answer for a page is right just when the rank of its category is a
position in the new list, and it is the old position or the category is at neither. -/
theorem getItemPosition_right_iff {before asks later : List Action} {c : HomePagerAdapter}
    {new : List ℤ} {fragment : ℕ}
    (hbefore : run step {} before = some a)
    (hcreated : a.getItem position = some (c, fragment))
    (htab : a.tabs[position]? = some categoryId)
    (hafter : run step c (asks ++ .update new :: later) = some b)
    (hasks : ∀ list, .update list ∉ asks ++ later) :
    b.Right fragment position categoryId ↔ b.rank categoryId < new.length ∧
      (b.rank categoryId = position ∨ new[b.rank categoryId]? ≠ some categoryId ∧
        new[position]? ≠ some categoryId) := by
  have hc : c.Inv := (inv_of_run hbefore).getItem hcreated
  have hb : b.Inv := run_invariant' (fun _ _ _ hu hstep ↦ hu.step hstep) hc hafter
  rw [run_append] at hafter
  obtain ⟨u, hu, hlater⟩ := Option.bind_eq_some_iff.mp hafter
  obtain ⟨v, hupdate, hlater⟩ := Option.bind_eq_some_iff.mp hlater
  obtain ⟨hnodup, hv⟩ := Option.ite_none_right_eq_some.mp hupdate
  obtain rfl := Option.some.inj hv
  have hkept := (frame_of_run (fun list hmem ↦ hasks list (List.mem_append_left _ hmem)) hu).2
  obtain ⟨htabs, hkept'⟩ :=
    frame_of_run (fun list hmem ↦ hasks list (List.mem_append_right _ hmem)) hlater
  have htabs : b.tabs = new := htabs
  have hfragment : b.fragments.get categoryId = some fragment :=
    hkept' _ _ (hkept _ _ (get_of_getItem hcreated htab))
  rw [right_iff hb hfragment, same_place_iff (htabs ▸ hnodup), htabs]

/-- The same tabs again, in the order of their ids. -/
theorem getItemPosition_right_sameTabs :
    ∃ a c b, run step {} [.update [3, 5], .getItem 0] = some a ∧
      a.getItem (1 : ℕ) = some (c, 1) ∧ run step c ([] ++ .update [3, 5] :: []) = some b ∧
      b.Right 1 1 5 := by
  have hruns : (run step {} [.update [3, 5], .getItem 0]).any (fun a ↦
      decide (a.tabs[1]? = some 5 ∧ (a.getItem (1 : ℕ)).any fun r ↦
        decide (r.2 = 1 ∧ (run step r.1 ([] ++ .update [3, 5] :: [])).any fun b ↦
          decide (b.rank 5 = 1)))) = true := by
    decide
  obtain ⟨a, ha, htab, hitem⟩ := exists_run_of_any hruns
  obtain ⟨⟨c, fragment⟩, hitem, hc⟩ := (Option.any_eq_true _ _).mp hitem
  obtain ⟨rfl, hafter⟩ := of_decide_eq_true hc
  obtain ⟨b, hb, hrank⟩ := (Option.any_eq_true _ _).mp hafter
  refine ⟨a, c, b, ha, hitem, hb, ?_⟩
  rw [getItemPosition_right_iff ha hitem htab hb (by simp), of_decide_eq_true hrank]
  decide

/-- The same tabs again, in another order: the page of the category 5 is made anew. -/
theorem not_right_sameTabs :
    ∃ b, run step {} [.update [5, 3], .getItem 0, .getItem 1, .update [5, 3]] = some b ∧
      b.fragments.get 5 = some 0 ∧ b.tabs[0]? = some 5 ∧ ¬ b.Right 0 0 5 :=
  exists_run_of_any (by decide)

end HomePagerAdapter

end HiApp.Home
