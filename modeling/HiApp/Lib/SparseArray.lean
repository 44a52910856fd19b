import Mathlib.Data.List.Basic
import Mathlib.Data.Int.Order.Basic
import Mathlib.Data.List.Nodup

/-!
# Sparse arrays

A map from integers that keeps its keys in ascending order, so that an entry can
also be addressed by its index.
-/

namespace HiApp

/-- The entries with their keys, which ascend. -/
structure SparseArray (α : Type*) where
  entries : List (ℤ × α)
  sorted : entries.Pairwise fun e e' ↦ e.1 < e'.1

namespace SparseArray

variable {α : Type*}

def empty : SparseArray α := ⟨[], List.Pairwise.nil⟩

/-- The entry goes to its place, or in place of the one with the same key. -/
def putEntry (key : ℤ) (value : α) : List (ℤ × α) → List (ℤ × α)
  | [] => [(key, value)]
  | e :: es =>
      if key < e.1 then (key, value) :: e :: es
      else if key = e.1 then (key, value) :: es
      else e :: putEntry key value es

theorem mem_putEntry {key : ℤ} {value : α} {es : List (ℤ × α)} {e : ℤ × α}
    (he : e ∈ putEntry key value es) : e = (key, value) ∨ e ∈ es := by
  induction es with
  | nil => exact .inl (List.mem_singleton.mp he)
  | cons e' es ih =>
      unfold putEntry at he
      split at he
      · exact List.mem_cons.mp he
      · split at he
        · rcases List.mem_cons.mp he with rfl | hmem
          · exact .inl rfl
          · exact .inr (List.mem_cons_of_mem _ hmem)
        · rcases List.mem_cons.mp he with rfl | hmem
          · exact .inr List.mem_cons_self
          · exact (ih hmem).imp_right (List.mem_cons_of_mem _)

theorem pairwise_putEntry (key : ℤ) (value : α) {es : List (ℤ × α)}
    (h : es.Pairwise fun e e' ↦ e.1 < e'.1) :
    (putEntry key value es).Pairwise fun e e' ↦ e.1 < e'.1 := by
  induction es with
  | nil => exact List.pairwise_singleton _ _
  | cons e es ih =>
      obtain ⟨hlt, htail⟩ := List.pairwise_cons.mp h
      unfold putEntry
      split
      · rename_i hkey
        refine List.pairwise_cons.mpr ⟨fun e' he' ↦ ?_, h⟩
        rcases List.mem_cons.mp he' with rfl | hmem
        · exact hkey
        · exact lt_trans hkey (hlt e' hmem)
      · split
        · rename_i hkey
          exact List.pairwise_cons.mpr ⟨fun e' he' ↦ hkey ▸ hlt e' he', htail⟩
        · rename_i hge hne
          refine List.pairwise_cons.mpr ⟨fun e' he' ↦ ?_, ih htail⟩
          rcases mem_putEntry he' with rfl | hmem
          · exact lt_of_le_of_ne (not_lt.mp hge) (Ne.symm hne)
          · exact hlt e' hmem

def put (s : SparseArray α) (key : ℤ) (value : α) : SparseArray α where
  entries := putEntry key value s.entries
  sorted := pairwise_putEntry key value s.sorted

def removeAt (s : SparseArray α) (index : ℕ) : SparseArray α where
  entries := s.entries.eraseIdx index
  sorted := s.sorted.sublist (List.eraseIdx_sublist _ _)

def size (s : SparseArray α) : ℕ := s.entries.length

def keys (s : SparseArray α) : List ℤ := s.entries.map Prod.fst

def values (s : SparseArray α) : List α := s.entries.map Prod.snd

/-- The index of a key or, when there is none, the place it would go to, made
negative. -/
def indexOfKey (s : SparseArray α) (key : ℤ) : ℤ :=
  match s.keys.findIdx? (· = key) with
  | some index => index
  | none => -(s.keys.countP (· < key) : ℤ) - 1

/-- The value under a key, if there is one. -/
def get (s : SparseArray α) (key : ℤ) : Option α :=
  (s.entries.find? (·.1 = key)).map Prod.snd

section

variable [DecidableEq α]

/-- The first index with the value. -/
def indexOfValue (s : SparseArray α) (value : α) : Option ℕ :=
  s.values.findIdx? (· = value)

end

variable {s : SparseArray α} {key : ℤ} {value : α}

@[simp] theorem length_keys : s.keys.length = s.size := List.length_map _

@[simp] theorem length_values : s.values.length = s.size := List.length_map _

theorem map_eraseIdx {γ : Type*} (f : α → γ) (l : List α) (index : ℕ) :
    (l.eraseIdx index).map f = (l.map f).eraseIdx index := by
  simp only [List.eraseIdx_eq_take_drop_succ, List.map_append, List.map_take, List.map_drop]

@[simp] theorem values_removeAt (index : ℕ) :
    (s.removeAt index).values = s.values.eraseIdx index :=
  map_eraseIdx Prod.snd s.entries index

theorem indexOfValue_eq_none_iff [DecidableEq α] :
    s.indexOfValue value = none ↔ value ∉ s.values := by
  simp only [indexOfValue, List.findIdx?_eq_none_iff, decide_eq_false_iff_not]
  constructor
  · intro h hmem
    exact h value hmem rfl
  · rintro h x hx rfl
    exact h hx

theorem mem_values_of_indexOfValue_ne_none [DecidableEq α] (h : s.indexOfValue value ≠ none) :
    value ∈ s.values := by
  by_contra hnone
  exact h (indexOfValue_eq_none_iff.mpr hnone)

theorem indexOfValue_lt [DecidableEq α] {index : ℕ} (h : s.indexOfValue value = some index) :
    index < s.values.length :=
  (List.findIdx?_eq_some_iff_getElem.mp h).1

theorem putEntry_cases (key : ℤ) (value : α) (es : List (ℤ × α)) :
    ∃ pre post, es = pre ++ post ∧ (∀ e ∈ pre, e.1 < key) ∧
      ((∀ e ∈ post.head?, key < e.1) ∧ putEntry key value es = pre ++ (key, value) :: post ∨
        (∃ e ∈ post.head?, e.1 = key) ∧
          putEntry key value es = pre ++ (key, value) :: post.tail) := by
  induction es with
  | nil => exact ⟨[], [], rfl, by simp, .inl ⟨by simp, rfl⟩⟩
  | cons e es ih =>
      unfold putEntry
      split
      · rename_i hlt
        exact ⟨[], e :: es, rfl, by simp, .inl ⟨by simpa using hlt, rfl⟩⟩
      · split
        · rename_i heq
          exact ⟨[], e :: es, rfl, by simp, .inr ⟨⟨e, rfl, heq.symm⟩, rfl⟩⟩
        · rename_i hge hne
          obtain ⟨pre, post, hes, hpre, hput⟩ := ih
          refine ⟨e :: pre, post, by rw [hes, List.cons_append], ?_, ?_⟩
          · rw [List.forall_mem_cons]
            exact ⟨lt_of_le_of_ne (not_lt.mp hge) (Ne.symm hne), hpre⟩
          · rcases hput with ⟨hpost, hput⟩ | ⟨hpost, hput⟩
            · exact .inl ⟨hpost, by rw [hput, List.cons_append]⟩
            · exact .inr ⟨hpost, by rw [hput, List.cons_append]⟩

/-- A value is put behind those with smaller keys: in front of those with greater
keys, or in place of the one with the same key. -/
theorem values_put_cases (s : SparseArray α) (key : ℤ) (value : α) :
    ∃ pre post, s.values = pre ++ post ∧
      ((s.put key value).values = pre ++ value :: post ∧
          (post = [] ↔ ∀ k ∈ s.keys, k < key) ∧ (pre = [] ↔ ∀ k ∈ s.keys, key < k) ∨
        (s.put key value).values.length = s.values.length ∧ key ∈ s.keys) := by
  obtain ⟨pre, post, hes, hpre, hput⟩ := putEntry_cases key value s.entries
  refine ⟨pre.map Prod.snd, post.map Prod.snd, by rw [values, hes, List.map_append], ?_⟩
  rcases hput with ⟨hpost, hput⟩ | ⟨⟨e, he, hkey⟩, hput⟩
  · left
    have hsorted := s.sorted
    rw [hes, List.pairwise_append] at hsorted
    -- the first of the greater keys is the least of them
    have hgreater : ∀ e ∈ post, key < e.1 := by
      cases post with
      | nil => simp
      | cons e post =>
          have hhead : key < e.1 := by simpa using hpost
          rw [List.forall_mem_cons]
          refine ⟨hhead, fun e' he' ↦ ?_⟩
          exact lt_trans hhead ((List.pairwise_cons.mp hsorted.2.1).1 e' he')
    have hkeys : ∀ k, k ∈ s.keys ↔ k ∈ pre.map Prod.fst ∨ k ∈ post.map Prod.fst := by
      intro k
      rw [keys, hes, List.map_append, List.mem_append]
    refine ⟨by simp [values, put, hput], ?_, ?_⟩
    · simp only [List.map_eq_nil_iff, hkeys, or_imp, forall_and, List.forall_mem_map]
      constructor
      · rintro rfl
        exact ⟨hpre, by simp⟩
      · rintro ⟨-, hless⟩
        rw [List.eq_nil_iff_forall_not_mem]
        exact fun e he ↦ lt_asymm (hless e he) (hgreater e he)
    · simp only [List.map_eq_nil_iff, hkeys, or_imp, forall_and, List.forall_mem_map]
      constructor
      · rintro rfl
        exact ⟨by simp, hgreater⟩
      · rintro ⟨hmore, -⟩
        rw [List.eq_nil_iff_forall_not_mem]
        exact fun e he ↦ lt_asymm (hmore e he) (hpre e he)
  · right
    have hmem : e ∈ post := List.mem_of_mem_head? he
    refine ⟨?_, ?_⟩
    · have hpos : 0 < post.length := List.length_pos_of_mem hmem
      simp only [values, put, hput, List.length_map]
      simp only [hes, List.length_append, List.length_cons, List.length_tail]
      omega
    · rw [keys, ← hkey, hes]
      exact List.mem_map_of_mem (List.mem_append_right _ hmem)

theorem entries_put : (s.put key value).entries = putEntry key value s.entries := rfl

theorem mem_keys_put {k : ℤ} : k ∈ (s.put key value).keys ↔ k = key ∨ k ∈ s.keys := by
  rw [keys, keys, entries_put]
  obtain ⟨pre, post, hes, -, ⟨-, hput⟩ | ⟨⟨e, he, hkey⟩, hput⟩⟩ :=
    putEntry_cases key value s.entries
  · rw [hput, hes]
    simp only [List.map_append, List.map_cons, List.mem_append, List.mem_cons]
    tauto
  · obtain ⟨rest, rfl⟩ := List.head?_eq_some_iff.mp he
    rw [hput, hes]
    simp only [List.map_append, List.map_cons, List.mem_append, List.mem_cons, List.tail_cons, hkey]
    tauto

theorem put_perm (value : α) (h : key ∉ s.keys) :
    (s.put key value).entries.Perm ((key, value) :: s.entries) := by
  rw [entries_put]
  obtain ⟨pre, post, hes, -, ⟨-, hput⟩ | ⟨⟨e, he, hkey⟩, -⟩⟩ :=
    putEntry_cases key value s.entries
  · rw [hput, hes]
    exact List.perm_middle
  · refine absurd ?_ h
    rw [keys, hes, ← hkey]
    exact List.mem_map_of_mem (List.mem_append_right _ (List.mem_of_mem_head? he))

theorem nodup_keys (s : SparseArray α) : s.keys.Nodup :=
  List.pairwise_map.mpr (s.sorted.imp fun h ↦ ne_of_lt h)

theorem size_put (s : SparseArray α) (key : ℤ) (value : α) :
    (s.put key value).size = s.size + 1 ∨
      (s.put key value).size = s.size ∧ 0 < s.size := by
  obtain ⟨pre, post, hvalues, ⟨hput, -, -⟩ | ⟨hlength, hkey⟩⟩ := s.values_put_cases key value
  · left
    rw [← length_values, ← length_values, hput, hvalues]
    simp [Nat.add_assoc]
  · right
    rw [← length_values, hlength, ← length_keys, length_keys, length_values]
    exact ⟨rfl, length_keys (s := s) ▸ List.length_pos_of_mem hkey⟩

/-! ## Lookup -/

theorem get_eq_some_iff : s.get key = some value ↔ (key, value) ∈ s.entries := by
  unfold get
  rw [Option.map_eq_some_iff]
  constructor
  · rintro ⟨⟨k, v⟩, hfind, rfl⟩
    obtain rfl : k = key := by simpa using List.find?_some hfind
    exact List.mem_of_find?_eq_some hfind
  · intro hmem
    have hfound : (s.entries.find? (·.1 = key)).isSome := by
      rw [List.find?_isSome]
      exact ⟨_, hmem, by simp⟩
    obtain ⟨⟨k, v⟩, hfind⟩ := Option.isSome_iff_exists.mp hfound
    obtain rfl : k = key := by simpa using List.find?_some hfind
    have heq := List.inj_on_of_nodup_map s.nodup_keys (List.mem_of_find?_eq_some hfind) hmem rfl
    exact ⟨_, hfind, (Prod.ext_iff.mp heq).2⟩

theorem get_eq_none_iff : s.get key = none ↔ key ∉ s.keys := by
  rw [get, Option.map_eq_none_iff, List.find?_eq_none, keys]
  simp only [decide_eq_true_eq, List.mem_map, not_exists, not_and]

theorem mem_entries_put {e : ℤ × α} (h : key ∉ s.keys) :
    e ∈ (s.put key value).entries ↔ e = (key, value) ∨ e ∈ s.entries := by
  rw [(put_perm value h).mem_iff, List.mem_cons]

theorem values_put_perm (h : key ∉ s.keys) :
    (s.put key value).values.Perm (value :: s.values) :=
  (put_perm value h).map Prod.snd

/-- As many keys are smaller as stand in front. -/
theorem countP_lt_keys {index : ℕ} (h : s.entries[index]? = some (key, value)) :
    s.keys.countP (· < key) = index := by
  obtain ⟨hlt, hget⟩ := List.getElem?_eq_some_iff.mp h
  have hsplit : s.entries = s.entries.take index ++ (key, value) :: s.entries.drop (index + 1) := by
    rw [← hget, ← List.drop_eq_getElem_cons hlt, List.take_append_drop]
  have hsorted := s.sorted
  rw [hsplit, List.pairwise_append, List.pairwise_cons] at hsorted
  obtain ⟨-, ⟨hgreater, -⟩, hless⟩ := hsorted
  have hfront : ((s.entries.take index).map Prod.fst).countP (· < key) = index := by
    rw [List.countP_eq_length.mpr]
    · simp [Nat.le_of_lt hlt]
    · rw [List.forall_mem_map]
      exact fun e he ↦ decide_eq_true (hless e he _ List.mem_cons_self)
  have hback : ((s.entries.drop (index + 1)).map Prod.fst).countP (· < key) = 0 := by
    rw [List.countP_eq_zero, List.forall_mem_map]
    intro e he
    simpa using le_of_lt (hgreater e he)
  rw [keys, hsplit, List.map_append, List.map_cons, List.countP_append, List.countP_cons, hfront,
    hback]
  simp

/-- The index of a value that is there once is the rank of its key. -/
theorem indexOfValue_of_get [DecidableEq α] (hnodup : s.values.Nodup)
    (h : s.get key = some value) :
    s.indexOfValue value = some (s.keys.countP (· < key)) := by
  obtain ⟨index, hindex⟩ := List.getElem?_of_mem (get_eq_some_iff.mp h)
  have hvalue : s.values[index]? = some value := by
    rw [values, List.getElem?_map, hindex]
    rfl
  obtain ⟨hlt, hget⟩ := List.getElem?_eq_some_iff.mp hvalue
  rw [countP_lt_keys hindex, indexOfValue, List.findIdx?_eq_some_iff_getElem]
  refine ⟨hlt, by simpa using hget, ?_⟩
  intro j hj hsame
  have heq : s.values[j] = s.values[index] := by
    rw [hget]
    simpa using hsame
  exact Nat.ne_of_lt hj (hnodup.getElem_inj_iff.mp heq)

/-! ## Places -/

/-- The value at an index. -/
def valueAt (s : SparseArray α) (index : ℕ) : Option α := s.values[index]?

theorem indexOfKey_neg_iff : s.indexOfKey key < 0 ↔ key ∉ s.keys := by
  unfold indexOfKey
  split
  · rename_i index hindex
    have hkey : key ∈ s.keys := by
      obtain ⟨hlt, hget, -⟩ := List.findIdx?_eq_some_iff_getElem.mp hindex
      exact of_decide_eq_true hget ▸ List.getElem_mem hlt
    exact iff_of_false (by omega) (not_not_intro hkey)
  · rename_i hnone
    apply iff_of_true (by omega)
    intro hkey
    simpa using List.findIdx?_eq_none_iff.mp hnone key hkey

theorem indexOfKey_of_entries {pre post : List (ℤ × α)}
    (h : s.entries = pre ++ (key, value) :: post) : s.indexOfKey key = pre.length := by
  have hless : ∀ k ∈ pre.map Prod.fst, k ≠ key := by
    have hsorted := s.sorted
    rw [h, List.pairwise_append] at hsorted
    rw [List.forall_mem_map]
    exact fun e he ↦ ne_of_lt (hsorted.2.2 e he _ List.mem_cons_self)
  have hindex : s.keys.findIdx? (· = key) = some pre.length := by
    rw [keys, h, List.map_append, List.findIdx?_append, List.findIdx?_eq_none_iff.mpr]
    · simp [List.findIdx?_cons]
    · exact fun k hk ↦ decide_eq_false (hless k hk)
  rw [indexOfKey, hindex]

theorem valueAt_of_entries {pre post : List (ℤ × α)} (h : s.entries = pre ++ post) {index : ℕ}
    (hlt : index < pre.length) : s.valueAt index = (pre.map Prod.snd)[index]? := by
  rw [valueAt, values, h, List.map_append, List.getElem?_append_left (by simpa using hlt)]

/-- An entry with the greatest key comes last. -/
theorem entries_put_of_lt (h : ∀ k ∈ s.keys, k < key) :
    (s.put key value).entries = s.entries ++ [(key, value)] := by
  rw [entries_put]
  obtain ⟨pre, post, hes, -, hput⟩ := putEntry_cases key value s.entries
  have hpost : post = [] := by
    cases post with
    | nil => rfl
    | cons e post =>
        have hlt : e.1 < key := h e.1 (by rw [keys, hes]; simp)
        rcases hput with ⟨hgreater, -⟩ | ⟨⟨e', he', hkey⟩, -⟩
        · exact absurd (hgreater e rfl) (not_lt_of_gt hlt)
        · obtain rfl := Option.some.inj he'
          exact absurd hkey (ne_of_lt hlt)
  subst hpost
  rcases hput with ⟨-, hput⟩ | ⟨-, hput⟩
  · rw [hput, hes, List.append_nil]
  · rw [hput, hes, List.append_nil, List.tail_nil]

end SparseArray

end HiApp
