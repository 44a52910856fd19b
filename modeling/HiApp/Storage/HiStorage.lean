import Mathlib.Data.List.Induction
import Mathlib.Logic.Function.Basic

/-!
# The cache on disk

`HiStorage` keeps serialised values in one table.  A value that cannot be
serialised is stored as an empty array, over whatever was there.
-/

namespace HiApp.Storage

abbrev Bytes := List UInt8

/-- Java serialisation of references to values of `V`, with `none` for `null` as
a value and for an exception as a result.  A stream begins with a header, so
nothing can be read from an empty one. -/
structure Serialization (V : Type*) where
  writeObject : Option V → Option Bytes
  readObject : Bytes → Option (Option V)
  readObject_writeObject : ∀ body data,
    writeObject body = some data → readObject data = some body
  readObject_nil : readObject [] = none

structure Cache where
  key : String := ""
  data : Option Bytes := none
  deriving DecidableEq

/-- The table `cache`, by primary key. -/
abbrev Table := String → Option Cache

namespace CacheDao

/-- `@Insert` with `OnConflictStrategy.REPLACE`. -/
def saveCache (table : Table) (cache : Cache) : Table :=
  Function.update table cache.key (some cache)

def getCache (table : Table) (key : String) : Option Cache := table key

def deleteCache (table : Table) (cache : Cache) : Table :=
  Function.update table cache.key none

end CacheDao

variable {V : Type*} (S : Serialization V)

namespace Serialization

/-- `toByteArray`: an exception gives an array without bytes. -/
def toByteArray (body : Option V) : Bytes := (S.writeObject body).getD []

/-- `toObject`: an exception gives `null`. -/
def toObject (data : Bytes) : Option V := (S.readObject data).getD none

theorem toObject_toByteArray (body : Option V) :
    S.toObject (S.toByteArray body) =
      if (S.writeObject body).isSome then body else none := by
  unfold toObject toByteArray
  cases hwrite : S.writeObject body with
  | none => simp [S.readObject_nil]
  | some data => simp [S.readObject_writeObject body data hwrite]

theorem ne_nil_of_writeObject {body : Option V} {data : Bytes}
    (hwrite : S.writeObject body = some data) : data ≠ [] := by
  rintro rfl
  have hread := S.readObject_writeObject body [] hwrite
  simp [S.readObject_nil] at hread

end Serialization

namespace HiStorage

def saveCache (table : Table) (key : String) (body : Option V) : Table :=
  CacheDao.saveCache table { key := key, data := some (S.toByteArray body) }

def getCache (table : Table) (key : String) : Option V :=
  match CacheDao.getCache table key with
  | some { data := some data, .. } => S.toObject data
  | _ => none

def deleteCache (table : Table) (key : String) : Table :=
  CacheDao.deleteCache table { key := key }

variable {S} {table : Table} {key : String}

theorem getCache_congr {table' : Table} (h : table key = table' key) :
    getCache S table key = getCache S table' key := by
  simp only [getCache, CacheDao.getCache, h]

@[simp] theorem saveCache_self (body : Option V) :
    saveCache S table key body key =
      some { key := key, data := some (S.toByteArray body) } := by
  simp [saveCache, CacheDao.saveCache]

@[simp] theorem saveCache_of_ne {key' : String} (h : key' ≠ key) (body : Option V) :
    saveCache S table key body key' = table key' := by
  simp [saveCache, CacheDao.saveCache, h]

@[simp] theorem deleteCache_self : deleteCache table key key = none := by
  simp [deleteCache, CacheDao.deleteCache]

@[simp] theorem deleteCache_of_ne {key' : String} (h : key' ≠ key) :
    deleteCache table key key' = table key' := by
  simp [deleteCache, CacheDao.deleteCache, h]

theorem getCache_saveCache_self (body : Option V) :
    getCache S (saveCache S table key body) key =
      if (S.writeObject body).isSome then body else none := by
  rw [← S.toObject_toByteArray]
  simp [getCache, CacheDao.getCache]

theorem getCache_saveCache_of_ne {key' : String} (h : key' ≠ key) (body : Option V) :
    getCache S (saveCache S table key body) key' = getCache S table key' :=
  getCache_congr (saveCache_of_ne h body)

theorem getCache_deleteCache_self : getCache S (deleteCache table key) key = none := by
  simp [getCache, CacheDao.getCache]

theorem getCache_deleteCache_of_ne {key' : String} (h : key' ≠ key) :
    getCache S (deleteCache table key) key' = getCache S table key' :=
  getCache_congr (deleteCache_of_ne h)

end HiStorage

/-! ## Sequences of calls -/

inductive Call (V : Type*) where
  | saveCache (key : String) (body : Option V)
  | getCache (key : String)
  | deleteCache (key : String)

/-- What one call leaves. -/
def Call.perform (table : Table) : Call V → Table
  | .saveCache key body => HiStorage.saveCache S table key body
  | .getCache _ => table
  | .deleteCache key => HiStorage.deleteCache table key

/-- The table after the calls, on a new installation. -/
def after (calls : List (Call V)) : Table :=
  calls.foldl (Call.perform S) fun _ ↦ none

/-- What a key-value store has for the key, from its calls with the latest first:
the value of the last save that succeeded, unless it was deleted since. -/
def lastSaved (key : String) : List (Call V) → Option V
  | [] => none
  | .saveCache key' body :: earlier =>
      if key' = key ∧ (S.writeObject body).isSome then body
      else lastSaved key earlier
  | .getCache _ :: earlier => lastSaved key earlier
  | .deleteCache key' :: earlier =>
      if key' = key then none else lastSaved key earlier

/-- The calls behave as calls on a key-value store: at every point a read gives
the value saved last, and a save that failed has left the entry as it was. -/
structure KeyValueStore (calls : List (Call V)) : Prop where
  read : ∀ done, done <+: calls → ∀ key,
    HiStorage.getCache S (after S done) key = lastSaved S key done.reverse
  failed : ∀ done key body, done ++ [Call.saveCache key body] <+: calls →
    S.writeObject body = none →
      after S (done ++ [Call.saveCache key body]) key = after S done key

variable {S}

@[simp] theorem after_concat (calls : List (Call V)) (call : Call V) :
    after S (calls ++ [call]) = call.perform S (after S calls) := by
  simp [after]

theorem getCache_after {calls : List (Call V)}
    (hall : ∀ key body, .saveCache key body ∈ calls → (S.writeObject body).isSome)
    (key : String) :
    HiStorage.getCache S (after S calls) key = lastSaved S key calls.reverse := by
  induction calls using List.reverseRecOn with
  | nil => rfl
  | append_singleton calls call ih =>
      have hbefore := ih fun key body hmem ↦ hall key body (by simp [hmem])
      rw [after_concat, List.reverse_concat]
      cases call with
      | saveCache key' body =>
          have hwrite : (S.writeObject body).isSome := hall key' body (by simp)
          by_cases hkey : key = key'
          · subst hkey
            simp [Call.perform, lastSaved, HiStorage.getCache_saveCache_self, hwrite]
          · simp only [Call.perform, lastSaved, Ne.symm hkey, false_and, if_false]
            rw [HiStorage.getCache_saveCache_of_ne hkey]
            exact hbefore
      | getCache key' => exact hbefore
      | deleteCache key' =>
          by_cases hkey : key = key'
          · subst hkey
            simp [Call.perform, lastSaved, HiStorage.getCache_deleteCache_self]
          · simp only [Call.perform, lastSaved, Ne.symm hkey, if_false]
            rw [HiStorage.getCache_deleteCache_of_ne hkey]
            exact hbefore

theorem after_ne_empty {calls : List (Call V)}
    (hall : ∀ key body, .saveCache key body ∈ calls → (S.writeObject body).isSome)
    {key : String} {c : Cache} (hcache : after S calls key = some c) :
    c.data ≠ some [] := by
  induction calls using List.reverseRecOn generalizing c with
  | nil => simp [after] at hcache
  | append_singleton calls call ih =>
      have hbefore := ih (c := c) fun key body hmem ↦
        hall key body (by simp [hmem])
      rw [after_concat] at hcache
      cases call with
      | saveCache key' body =>
          obtain ⟨data, hwrite⟩ := Option.isSome_iff_exists.mp (hall key' body (by simp))
          by_cases hkey : key = key'
          · subst hkey
            rw [Call.perform, HiStorage.saveCache_self, Option.some.injEq] at hcache
            subst hcache
            simpa [Serialization.toByteArray, hwrite] using
              S.ne_nil_of_writeObject hwrite
          · rw [Call.perform, HiStorage.saveCache_of_ne hkey] at hcache
            exact hbefore hcache
      | getCache key' => exact hbefore hcache
      | deleteCache key' =>
          by_cases hkey : key = key'
          · subst hkey
            simp [Call.perform] at hcache
          · rw [Call.perform, HiStorage.deleteCache_of_ne hkey] at hcache
            exact hbefore hcache

/-- The first save that fails is noticed: it leaves an empty entry where there was
none. -/
theorem KeyValueStore.writeObject_isSome {calls : List (Call V)}
    (hstore : KeyValueStore S calls) :
    ∀ key body, .saveCache key body ∈ calls → (S.writeObject body).isSome := by
  induction calls using List.reverseRecOn with
  | nil => simp
  | append_singleton calls call ih =>
      have hinit : KeyValueStore S calls := by
        constructor
        · intro done hdone
          exact hstore.read done (hdone.trans (List.prefix_append calls [call]))
        · intro done key body hdone
          exact hstore.failed done key body
            (hdone.trans (List.prefix_append calls [call]))
      have hall := ih hinit
      intro key body hmem
      rcases List.mem_append.mp hmem with hmem | hmem
      · exact hall key body hmem
      · obtain rfl : Call.saveCache key body = call := by simpa using hmem
        by_contra hnone
        have hwrite : S.writeObject body = none := by simpa using hnone
        have hsame := hstore.failed calls key body (List.prefix_refl _) hwrite
        rw [after_concat, Call.perform, HiStorage.saveCache_self] at hsame
        exact after_ne_empty hall hsame.symm (by simp [Serialization.toByteArray, hwrite])

/-- The calls behave as calls on a key-value store if and only if every value
that is saved can be serialised. -/
theorem keyValueStore_iff_serializable (S : Serialization V) (calls : List (Call V)) :
    KeyValueStore S calls ↔
      ∀ key body, .saveCache key body ∈ calls → (S.writeObject body).isSome := by
  constructor
  · intro hstore
    exact hstore.writeObject_isSome
  · intro hall
    constructor
    · intro done hdone
      apply getCache_after
      intro key body hmem
      exact hall key body (hdone.subset hmem)
    · intro done key body hdone hwrite
      have hsome := hall key body (hdone.subset (by simp))
      simp [hwrite] at hsome

/-- Numbers below 256 behind a header; others cannot be serialised. -/
def byteSerialization : Serialization ℕ where
  writeObject
    | none => some [0x70]
    | some n => if n < 256 then some [0x77, UInt8.ofNat n] else none
  readObject
    | [0x70] => some none
    | [0x77, n] => some (some n.toNat)
    | _ => none
  readObject_writeObject := by
    intro body data hwrite
    cases body with
    | none =>
        obtain rfl : [0x70] = data := by simpa using hwrite
        rfl
    | some n =>
        by_cases hn : n < 256
        · obtain rfl : [0x77, UInt8.ofNat n] = data := by simpa [hn] using hwrite
          simp [Nat.mod_eq_of_lt hn]
        · simp [hn] at hwrite
  readObject_nil := rfl

/-- A save that fails takes the value saved before it away. -/
theorem value_lost_by_failed_save :
    ¬ KeyValueStore byteSerialization
      [.saveCache "user_profile" (some 7), .saveCache "user_profile" (some 1000)] := by
  intro hstore
  have hread := hstore.read _ (List.prefix_refl _) "user_profile"
  revert hread
  decide

end HiApp.Storage
