import HiApp.Lib.Java

/-!
# Long messages on the console

`print` cuts a message into pieces of at most `MAX_LEN` characters, and then prints them as one
string again.
-/

namespace HiApp.Log

open Java

namespace HiLogConfig

/-- The greatest length of a line. -/
def MAX_LEN : ℕ := 512

end HiLogConfig

open HiLogConfig

/-- A call of `Log.println`, with the characters of the string that it prints. -/
structure Println where
  level : ℤ
  tag : String
  msg : List UInt16
  deriving DecidableEq

namespace HiConsolePrinter

/-- The turns of the loop that are left.  `log` has the strings appended so far, and a failing
`substring` ends it. -/
def appendSubs (printString : List UInt16) :
    ℕ → List (List UInt16) → ℕ → Option (List (List UInt16) × ℕ)
  | 0, log, index => some (log, index)
  | turns + 1, log, index => do
      let sub ← substring printString index (index + MAX_LEN)
      appendSubs printString turns (log ++ [sub]) (index + MAX_LEN)

/-- The last line. -/
def appendLast (printString : List UInt16) (log : List (List UInt16)) (index : ℕ) :
    Option (List (List UInt16)) :=
  if index ≠ printString.length then do
    let sub ← substring printString index printString.length
    some (log ++ [sub])
  else some log

def print (level : ℤ) (tag : String) (printString : List UInt16) : Option (List Println) :=
  let countOfSub := printString.length / MAX_LEN
  if countOfSub > 0 then do
    let (log, index) ← appendSubs printString countOfSub [] 0
    let log ← appendLast printString log index
    some [{ level := level, tag := tag, msg := log.flatten }]
  else some [{ level := level, tag := tag, msg := printString }]

/-- The strings are the message in order, none too long, and none empty without need. -/
structure Splits (printString : List UInt16) (msgs : List (List UInt16)) : Prop where
  flatten_eq : msgs.flatten = printString
  length_le : ∀ msg ∈ msgs, msg.length ≤ MAX_LEN
  ne_nil : printString ≠ [] → ∀ msg ∈ msgs, msg ≠ []

variable {printString : List UInt16}

/-- The turns append what they have passed, in pieces of the greatest length. -/
theorem appendSubs_eq {turns index : ℕ} (log : List (List UInt16))
    (h : index + turns * MAX_LEN ≤ printString.length) :
    ∃ subs, appendSubs printString turns log index =
        some (log ++ subs, index + turns * MAX_LEN) ∧
      subs.flatten = (printString.drop index).take (turns * MAX_LEN) ∧
      ∀ sub ∈ subs, sub.length = MAX_LEN := by
  induction turns generalizing log index with
  | zero => exact ⟨[], by simp [appendSubs], by simp, by simp⟩
  | succ turns ih =>
      rw [Nat.succ_mul] at h
      have hfirst : index + MAX_LEN ≤ printString.length := by
        omega
      have hrest : index + MAX_LEN + turns * MAX_LEN ≤ printString.length := by
        omega
      have hsub := substring_add hfirst
      obtain ⟨subs, hsubs, hflatten, hlength⟩ :=
        ih (log ++ [(printString.drop index).take MAX_LEN]) hrest
      refine ⟨(printString.drop index).take MAX_LEN :: subs, ?_, ?_, ?_⟩
      · rw [appendSubs, hsub, Option.bind_eq_bind, Option.bind_some, hsubs, Nat.succ_mul,
          List.append_assoc, List.singleton_append, Nat.add_assoc,
          Nat.add_comm MAX_LEN (turns * MAX_LEN)]
      · rw [List.flatten_cons, hflatten, Nat.succ_mul, Nat.add_comm (turns * MAX_LEN),
          List.take_add, List.drop_drop]
      · intro sub hmem
        rcases List.mem_cons.mp hmem with rfl | hmem
        · rw [List.length_take, List.length_drop]
          omega
        · exact hlength sub hmem

/-- The rest after a whole number of lines is the last line, if there is any. -/
theorem appendLast_eq {log : List (List UInt16)} {index : ℕ} (h : index ≤ printString.length) :
    appendLast printString log index =
      some (if index ≠ printString.length then log ++ [printString.drop index] else log) := by
  have hsub : substring printString index printString.length = some (printString.drop index) := by
    have hdrop : (printString.drop index).length ≤ printString.length - index := by
      rw [List.length_drop]
    rw [substring, if_pos ⟨h, le_refl _⟩, List.take_of_length_le hdrop]
  unfold appendLast
  split
  · rw [hsub]
    rfl
  · rfl

/-- The strings that `log` is made of, which would split the message if each was printed. -/
theorem exists_splits (printString : List UInt16) :
    ∃ log index subs,
      appendSubs printString (printString.length / MAX_LEN) [] 0 = some (log, index) ∧
      appendLast printString log index = some subs ∧ Splits printString subs := by
  have hmax : 0 < MAX_LEN := Nat.succ_pos 511
  have hle : printString.length / MAX_LEN * MAX_LEN ≤ printString.length :=
    Nat.div_mul_le_self printString.length MAX_LEN
  have hlast : printString.length < printString.length / MAX_LEN * MAX_LEN + MAX_LEN :=
    Nat.lt_div_mul_add hmax
  obtain ⟨log, hlog, hflatten, hlength⟩ :=
    appendSubs_eq [] (Nat.zero_add (printString.length / MAX_LEN * MAX_LEN) ▸ hle)
  rw [Nat.zero_add, List.nil_append] at hlog
  rw [List.drop_zero] at hflatten
  have hlog_ne : ∀ msg ∈ log, msg ≠ [] := by
    intro msg hmsg
    exact List.ne_nil_of_length_pos (hmax.trans_eq (hlength msg hmsg).symm)
  refine ⟨log, _, _, hlog, appendLast_eq hle, ?_⟩
  generalize printString.length / MAX_LEN * MAX_LEN = index at *
  split
  case isTrue hne =>
    refine ⟨?_, ?_, fun _ ↦ ?_⟩
    · rw [List.flatten_append, List.flatten_singleton, hflatten, List.take_append_drop]
    · refine List.forall_mem_append.mpr ⟨fun msg hmsg ↦ (hlength msg hmsg).le, ?_⟩
      rw [List.forall_mem_singleton, List.length_drop]
      omega
    · refine List.forall_mem_append.mpr ⟨hlog_ne, ?_⟩
      rw [List.forall_mem_singleton, Ne, List.drop_eq_nil_iff]
      omega
  case isFalse heq =>
    have heq' : index = printString.length := not_not.mp heq
    refine ⟨?_, fun msg hmsg ↦ (hlength msg hmsg).le, fun _ ↦ hlog_ne⟩
    rw [hflatten, heq', List.take_length]

/-- The whole message is printed as one string. -/
theorem print_eq (level : ℤ) (tag : String) (printString : List UInt16) :
    print level tag printString =
      some [{ level := level, tag := tag, msg := printString }] := by
  obtain ⟨log, index, subs, hlog, hsubs, hsplits⟩ := exists_splits printString
  unfold print
  dsimp only
  split
  · rw [hlog, Option.bind_eq_bind, Option.bind_some, hsubs, Option.bind_eq_bind,
      Option.bind_some, hsplits.flatten_eq]
  · rfl

/-- The strings split the message if and only if it is one line. -/
theorem print_splits_iff (level : ℤ) (tag : String) (printString : List UInt16) :
    (∃ calls, print level tag printString = some calls ∧
      Splits printString (calls.map Println.msg)) ↔ printString.length ≤ MAX_LEN := by
  rw [print_eq]
  constructor
  · rintro ⟨calls, hcalls, hsplits⟩
    obtain rfl := Option.some.inj hcalls
    exact hsplits.length_le printString (List.mem_singleton_self printString)
  · intro hle
    refine ⟨_, rfl, ?_⟩
    rw [List.map_singleton]
    exact ⟨List.flatten_singleton, List.forall_mem_singleton.mpr hle,
      fun hne ↦ List.forall_mem_singleton.mpr hne⟩

/-- One character more than a line. -/
theorem not_splits_print_513 :
    ∃ calls, print 4 "HiLog" (List.replicate 513 65) = some calls ∧
      ¬ Splits (List.replicate 513 65) (calls.map Println.msg) := by
  refine ⟨_, print_eq 4 "HiLog" (List.replicate 513 65), fun hsplits ↦ ?_⟩
  have hle := hsplits.length_le _ (List.mem_singleton_self _)
  rw [List.length_replicate] at hle
  exact absurd hle (by decide)

end HiConsolePrinter

end HiApp.Log
