import HiApp.Lib.Runs
import Mathlib.Data.List.DropRight

/-!
# Activities and the foreground

`ActivityManager` keeps weak references to the activities that were created, and
counts the started ones to tell the foreground from the background.
-/

namespace HiApp.Util

open Runs

variable {α γ : Type*}

/-! ## References -/

/-- A reference object; its referent is gone once the collector has cleared it. -/
structure WeakReference (α : Type*) where
  id : ℕ
  referent : Option α
  deriving DecidableEq

/-- All references are different objects, made before the `next`. -/
def Distinct (refs : List (WeakReference α)) (next : ℕ) : Prop :=
  (∀ ref ∈ refs, ref.id < next) ∧ (refs.map WeakReference.id).Nodup

namespace Distinct

variable {refs : List (WeakReference α)} {next : ℕ}

theorem empty : Distinct ([] : List (WeakReference α)) 0 := by
  simp [Distinct]

theorem concat (h : Distinct refs next) (activity : α) :
    Distinct (refs ++ [⟨next, some activity⟩]) (next + 1) := by
  constructor
  · intro ref href
    rcases List.mem_append.mp href with hmem | hmem
    · exact Nat.lt_succ_of_lt (h.1 ref hmem)
    · rw [List.mem_singleton.mp hmem]
      exact Nat.lt_succ_self _
  · rw [List.map_append, List.nodup_append]
    refine ⟨h.2, by simp, ?_⟩
    intro i hi j hj
    obtain ⟨ref, href, rfl⟩ := List.mem_map.mp hi
    rw [List.mem_singleton.mp hj]
    exact Nat.ne_of_lt (h.1 ref href)

theorem eraseP (h : Distinct refs next) (p : WeakReference α → Bool) :
    Distinct (refs.eraseP p) next :=
  ⟨fun ref href ↦ h.1 ref (List.mem_of_mem_eraseP href),
    (List.eraseP_sublist.map _).nodup h.2⟩

theorem map {f : WeakReference α → WeakReference α} (hf : ∀ ref, (f ref).id = ref.id)
    (h : Distinct refs next) : Distinct (refs.map f) next := by
  constructor
  · intro r hr
    obtain ⟨ref, href, rfl⟩ := List.mem_map.mp hr
    rw [hf]
    exact h.1 ref href
  · have hids : (refs.map f).map WeakReference.id = refs.map WeakReference.id := by
      rw [List.map_map]
      exact List.map_congr_left fun ref _ ↦ hf ref
    rw [hids]
    exact h.2

end Distinct

/-- `activityRefs`. -/
structure ActivityRefs (α : Type*) where
  refs : List (WeakReference α)
  next : ℕ
  distinct : Distinct refs next

namespace ActivityRefs

def empty : ActivityRefs α := ⟨[], 0, Distinct.empty⟩

theorem distinct_add (a : ActivityRefs α) (activity : α) :
    Distinct (a.refs ++ [⟨a.next, some activity⟩]) (a.next + 1) :=
  a.distinct.concat activity

def add (a : ActivityRefs α) (activity : α) : ActivityRefs α :=
  ⟨a.refs ++ [⟨a.next, some activity⟩], a.next + 1, distinct_add a activity⟩

theorem distinct_remove (a : ActivityRefs α) (ref : WeakReference α) :
    Distinct (a.refs.eraseP (·.id = ref.id)) a.next :=
  a.distinct.eraseP _

/-- `activityRefs.remove(ref)`: references are equal when they are the same object. -/
def remove (a : ActivityRefs α) (ref : WeakReference α) : ActivityRefs α :=
  ⟨a.refs.eraseP (·.id = ref.id), a.next, distinct_remove a ref⟩

/-- The reference without its referent, if that is the activity. -/
def cleared [DecidableEq α] (activity : α) (ref : WeakReference α) : WeakReference α :=
  if ref.referent = some activity then { ref with referent := none } else ref

theorem cleared_id [DecidableEq α] (activity : α) (ref : WeakReference α) :
    (cleared activity ref).id = ref.id := by
  unfold cleared
  split <;> rfl

theorem distinct_clear [DecidableEq α] (a : ActivityRefs α) (activity : α) :
    Distinct (a.refs.map (cleared activity)) a.next :=
  a.distinct.map (cleared_id activity)

/-- The collector clears the references to an activity. -/
def clear [DecidableEq α] (a : ActivityRefs α) (activity : α) : ActivityRefs α :=
  ⟨a.refs.map (cleared activity), a.next, distinct_clear a activity⟩

/-- Of the references the last one is removed. -/
theorem remove_concat {a : ActivityRefs α} {init : List (WeakReference α)}
    {ref : WeakReference α} (h : a.refs = init ++ [ref]) : (a.remove ref).refs = init := by
  have hnodup := a.distinct.2
  rw [h, List.map_append, List.nodup_append] at hnodup
  have hinit : ∀ r ∈ init, ¬ decide (r.id = ref.id) = true := by
    intro r hr hid
    exact hnodup.2.2 _ (List.mem_map_of_mem hr) _ (by simp) (of_decide_eq_true hid)
  have herase : (a.remove ref).refs = (init ++ [ref]).eraseP (·.id = ref.id) :=
    congrArg (List.eraseP _) h
  rw [herase, List.eraseP_append_right _ hinit]
  simp

end ActivityRefs

/-- What the system says about activities.  The application runs on version 19 or
later. -/
structure Platform (α : Type*) where
  sdkInt : ℕ
  minSdkVersion : 19 ≤ sdkInt
  isFinishing : α → Bool
  isDestroyed : α → Bool

inductive NullPointerException where
  | nullPointerException
  deriving DecidableEq

/-! ## The manager -/

structure ActivityManager (α γ : Type*) where
  activityRefs : ActivityRefs α := ActivityRefs.empty
  frontBackCallbacks : List γ := []
  activityStartCount : ℤ := 0
  front : Bool := true

namespace ActivityManager

/-- The calls of `onChange`, in turn. -/
def onFrontBackChanged (m : ActivityManager α γ) (front : Bool) : List (γ × Bool) :=
  m.frontBackCallbacks.map fun callback ↦ (callback, front)

def onActivityStarted (m : ActivityManager α γ) : ActivityManager α γ × List (γ × Bool) :=
  let m := { m with activityStartCount := m.activityStartCount + 1 }
  if !m.front && m.activityStartCount > 0 then
    let m := { m with front := true }
    (m, m.onFrontBackChanged m.front)
  else (m, [])

def onActivityStopped (m : ActivityManager α γ) : ActivityManager α γ × List (γ × Bool) :=
  let m := { m with activityStartCount := m.activityStartCount - 1 }
  if m.activityStartCount ≤ 0 && m.front then
    let m := { m with front := false }
    (m, m.onFrontBackChanged m.front)
  else (m, [])

def onActivityCreated (m : ActivityManager α γ) (activity : α) : ActivityManager α γ :=
  { m with activityRefs := m.activityRefs.add activity }

/-- The first reference to the activity is removed. -/
def onActivityDestroyed [DecidableEq α] (m : ActivityManager α γ) (activity : α) :
    ActivityManager α γ :=
  match m.activityRefs.refs.find? (·.referent = some activity) with
  | some activityRef => { m with activityRefs := m.activityRefs.remove activityRef }
  | none => m

def addFrontBackCallback [DecidableEq γ] (m : ActivityManager α γ) (callback : γ) :
    ActivityManager α γ :=
  if callback ∈ m.frontBackCallbacks then m
  else { m with frontBackCallbacks := m.frontBackCallbacks ++ [callback] }

def removeFrontBackCallback [DecidableEq γ] (m : ActivityManager α γ) (callback : γ) :
    ActivityManager α γ :=
  { m with frontBackCallbacks := m.frontBackCallbacks.erase callback }

/-- `activity!!.isFinishing || SDK_INT >= JELLY_BEAN_MR1 && activity!!.isDestroyed`. -/
def isGone (P : Platform α) (activity : α) : Bool :=
  P.isFinishing activity || (decide (17 ≤ P.sdkInt) && P.isDestroyed activity)

/-- `getTopActivity` on a list of `size` references.  The test for null is made on the
reference, never on what it refers to. -/
def topActivity (P : Platform α) (onlyAlive : Bool) :
    ℕ → ActivityRefs α → Except NullPointerException (Option α) × ActivityRefs α
  | 0, a => (.ok none, a)
  | size + 1, a =>
      match a.refs.getLast? with
      | none => (.ok none, a)
      | some activityRef =>
          if onlyAlive then
            match activityRef.referent with
            | none => (.error .nullPointerException, a)
            | some activity =>
                if isGone P activity then topActivity P onlyAlive size (a.remove activityRef)
                else (.ok (some activity), a)
          else (.ok activityRef.referent, a)

def getTopActivity (P : Platform α) (m : ActivityManager α γ) (onlyAlive : Bool) :
    Except NullPointerException (Option α) × ActivityManager α γ :=
  let r := topActivity P onlyAlive m.activityRefs.refs.length m.activityRefs
  (r.1, { m with activityRefs := r.2 })

/-! ## The activity on top -/

/-- A reference to an activity that is neither finishing nor destroyed. -/
def isAlive (P : Platform α) (ref : WeakReference α) : Bool :=
  ref.referent.any fun activity ↦ !P.isFinishing activity && !P.isDestroyed activity

/-- The references up to the topmost one that is alive. -/
def upToAlive (P : Platform α) (refs : List (WeakReference α)) : List (WeakReference α) :=
  refs.rdropWhile fun ref ↦ !isAlive P ref

/-- The references above the topmost one that is alive. -/
def aboveAlive (P : Platform α) (refs : List (WeakReference α)) : List (WeakReference α) :=
  refs.rtakeWhile fun ref ↦ !isAlive P ref

/-- The call returns the topmost activity that is alive, or null, and removes the
references above it and no other. -/
def FindsTop (P : Platform α) (m : ActivityManager α γ) : Prop :=
  (m.getTopActivity P true).1 =
      .ok ((upToAlive P m.activityRefs.refs).getLast?.bind WeakReference.referent) ∧
    (m.getTopActivity P true).2.activityRefs.refs = upToAlive P m.activityRefs.refs

theorem isGone_eq (P : Platform α) (ref : WeakReference α) {activity : α}
    (h : ref.referent = some activity) : isGone P activity = !isAlive P ref := by
  have hsdk : 17 ≤ P.sdkInt := Nat.le_trans (by decide) P.minSdkVersion
  simp [isGone, isAlive, h, hsdk]

theorem topActivity_iff (P : Platform α) {refs : List (WeakReference α)}
    {a : ActivityRefs α} (ha : a.refs = refs) :
    (topActivity P true refs.length a).1 =
          .ok ((upToAlive P refs).getLast?.bind WeakReference.referent) ∧
        (topActivity P true refs.length a).2.refs = upToAlive P refs ↔
      ∀ ref ∈ aboveAlive P refs, ref.referent ≠ none := by
  induction refs using List.reverseRecOn generalizing a with
  | nil =>
      refine iff_of_true ⟨rfl, ha⟩ ?_
      simp [aboveAlive]
  | append_singleton refs ref ih =>
      have hlength : (refs ++ [ref]).length = refs.length + 1 := by simp
      have hlast : a.refs.getLast? = some ref := by rw [ha, List.getLast?_concat]
      rw [hlength, topActivity, hlast]
      cases hreferent : ref.referent with
      | none =>
          -- a cleared reference is not alive, and the call throws
          have hdead : isAlive P ref = false := by simp [isAlive, hreferent]
          refine iff_of_false (by simp [hreferent]) ?_
          simp [aboveAlive, List.rtakeWhile_concat_pos, hdead, hreferent]
      | some activity =>
          simp only [hreferent, isGone_eq P ref hreferent]
          cases halive : isAlive P ref with
          | true =>
              refine iff_of_true ?_ ?_
              · simp [upToAlive, List.rdropWhile_concat_neg, halive, hreferent, ha]
              · simp [aboveAlive, List.rtakeWhile_concat_neg, halive]
          | false =>
              have hrest := ih (ActivityRefs.remove_concat ha)
              simpa [upToAlive, aboveAlive, List.rdropWhile_concat_pos,
                List.rtakeWhile_concat_pos, halive, hreferent, or_imp, forall_and] using hrest

/-- The call is exact if and only if no cleared reference stands above the topmost
activity that is alive. -/
theorem findsTop_iff (P : Platform α) (m : ActivityManager α γ) :
    m.FindsTop P ↔ ∀ ref ∈ aboveAlive P m.activityRefs.refs, ref.referent ≠ none :=
  topActivity_iff P rfl

/-- The second activity was collected before it was destroyed. -/
def collectedManager : ActivityManager (Fin 2) (Fin 1) where
  activityRefs := ((ActivityRefs.empty.add 0).add 1).clear 1

def resumedPlatform : Platform (Fin 2) where
  sdkInt := 28
  minSdkVersion := by decide
  isFinishing _ := false
  isDestroyed _ := false

/-- The first activity is alive, and is not found. -/
theorem collected_activity_throws :
    upToAlive resumedPlatform collectedManager.activityRefs.refs = [⟨0, some 0⟩] ∧
      (collectedManager.getTopActivity resumedPlatform true).1 =
        .error .nullPointerException ∧
      ¬ collectedManager.FindsTop resumedPlatform := by
  refine ⟨by decide, by rfl, ?_⟩
  rw [findsTop_iff]
  decide

end ActivityManager

end HiApp.Util
