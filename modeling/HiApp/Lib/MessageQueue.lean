import Mathlib.Data.List.Basic

/-!
# A message queue

Messages wait in the order of their times, those of one time in the order in which
they came.  A message for time 0 goes in front of all others.
-/

namespace HiApp

structure Message (κ : Type*) where
  callback : κ
  time : ℕ

namespace Message

variable {κ : Type*}

def enqueue (message : Message κ) : List (Message κ) → List (Message κ)
  | [] => [message]
  | head :: rest =>
      if message.time = 0 ∨ message.time < head.time then message :: head :: rest
      else head :: enqueue message rest

@[simp] theorem mem_enqueue {message m : Message κ} {queue : List (Message κ)} :
    m ∈ enqueue message queue ↔ m = message ∨ m ∈ queue := by
  induction queue with
  | nil => simp [enqueue]
  | cons head rest ih =>
      rw [enqueue]
      split
      · simp
      · rw [List.mem_cons, ih, List.mem_cons]
        exact or_left_comm

theorem enqueue_perm (message : Message κ) (queue : List (Message κ)) :
    (enqueue message queue).Perm (message :: queue) := by
  induction queue with
  | nil => exact List.Perm.refl _
  | cons head rest ih =>
      rw [enqueue]
      split
      · exact List.Perm.refl _
      · exact (ih.cons head).trans (List.Perm.swap message head rest)

end Message

end HiApp
