import HiApp.Lib.Runs
import HiApp.Restful.Scheduler

/-!
# What a callback is given

Calls made with `enqueue`, from the cache reads on the executor and the answers of
the network to the callbacks on the main thread.  Retrofit posts an answer behind
the messages of the main looper, a cached response is sent to the front of them.
-/

namespace HiApp.Restful.Delivery

open Runs Storage

variable {V : Type*}

inductive Kind where
  | cached
  | network
  deriving DecidableEq

/-- A message for the callback of the call with the number `call`. -/
inductive Message (V : Type*) where
  | cached (call : ℕ) (response : HiResponse V)
  | network (call : ℕ) (result : Except Throwable (HiResponse V))

def Message.tag : Message V → ℕ × Kind
  | .cached call _ => (call, .cached)
  | .network call _ => (call, .network)

/-- The job of the executor that reads the cache. -/
inductive Reading (V : Type*) where
  | queued
  | found (cacheResponse : HiResponse V)
  | finished

structure Enqueued (V : Type*) where
  call : ProxyCall V
  reading : Reading V
  inFlight : Bool := true

/-- The calls by their numbers, the messages of the main looper, what was handed to
callbacks, oldest first, the saves on the executor and the cache. -/
structure State (V : Type*) where
  calls : List (Enqueued V) := []
  queue : List (Message V) := []
  delivered : List (Message V) := []
  saves : List (SaveJob V) := []
  table : Table := fun _ ↦ none

inductive Action (V : Type*) where
  | enqueue (call : ProxyCall V)
  | readCache (i : ℕ)
  | sendAtFrontOfQueue (i : ℕ)
  | arrive (i : ℕ) (result : Except Throwable (HiResponse V))
  | loop
  | save (j : ℕ)

variable (S : Serialization V)

def enqueue (s : State V) (call : ProxyCall V) : State V :=
  { s with calls := s.calls ++
      [{ call := call
         reading := if call.sent.cacheStrategy = CacheStrategy.cacheFirst
           then .queued else .finished }] }

/-- The first half of the job; without data, or with an exception, it is over. -/
def read (table : Table) (call : ProxyCall V) : Reading V :=
  match readCache S table call.sent with
  | .error _ => .finished
  | .ok cacheResponse =>
      if cacheResponse.data.isSome then .found cacheResponse else .finished

/-- The main thread takes a message and calls the callback. -/
def deliver (s : State V) : Message V → Option (State V)
  | .network i (.ok response) =>
      (s.calls[i]?).map fun e ↦
        { s with
          delivered := s.delivered ++ [.network i (.ok (e.call.onSuccess response).1)]
          saves := s.saves ++ (e.call.onSuccess response).2.toList }
  | message => some { s with delivered := s.delivered ++ [message] }

def step (s : State V) : Action V → Option (State V)
  | .enqueue call => some (enqueue s call)
  | .readCache i =>
      match s.calls[i]? with
      | some { call := call, reading := .queued, inFlight := inFlight } =>
          some { s with calls := s.calls.set i ⟨call, read S s.table call, inFlight⟩ }
      | _ => none
  | .sendAtFrontOfQueue i =>
      match s.calls[i]? with
      | some { call := call, reading := .found cacheResponse, inFlight := inFlight } =>
          some { s with
            calls := s.calls.set i ⟨call, .finished, inFlight⟩
            queue := .cached i cacheResponse :: s.queue }
      | _ => none
  | .arrive i result =>
      match s.calls[i]? with
      | some { call := call, reading := reading, inFlight := true } =>
          some { s with
            calls := s.calls.set i ⟨call, reading, false⟩
            queue := s.queue ++ [.network i result] }
      | _ => none
  | .loop =>
      match s.queue with
      | [] => none
      | message :: queue => deliver { s with queue := queue } message
  | .save j =>
      match s.saves[j]? with
      | none => none
      | some job =>
          some { s with table := job.run S s.table, saves := s.saves.eraseIdx j }

/-! ## The line of messages -/

/-- A cached response does not come after an answer of the network. -/
def NotStale (earlier later : ℕ × Kind) : Prop :=
  ∀ i, earlier = (i, .network) → later ≠ (i, .cached)

/-- Every callback is called at most once with a cached response and at most once
with an answer of the network, and never with the cached response after the
answer. -/
structure Orderly (s : State V) : Prop where
  once : ∀ i kind, (s.delivered.map Message.tag).count (i, kind) ≤ 1
  order : (s.delivered.map Message.tag).Pairwise NotStale

/-- A cached response is sent only while its call has not been given the answer of
the network. -/
def Timely (s : State V) : Action V → Prop
  | .sendAtFrontOfQueue i => (i, .network) ∉ s.delivered.map Message.tag
  | .enqueue _ | .readCache _ | .arrive _ _ | .loop | .save _ => True

/-- What was handed to callbacks and what is about to be. -/
def State.line (s : State V) : List (ℕ × Kind) :=
  (s.delivered ++ s.queue).map Message.tag

def Enqueued.waiting (e : Enqueued V) : Kind → ℕ
  | .cached => match e.reading with
      | .queued | .found _ => 1
      | .finished => 0
  | .network => e.inFlight.toNat

/-- The messages of the kind that may still come into the line. -/
def State.waiting (s : State V) (i : ℕ) (kind : Kind) : ℕ :=
  (s.calls[i]?).elim 0 (Enqueued.waiting · kind)

/-- A call has one message of either kind, at most. -/
def Single (s : State V) : Prop :=
  ∀ i kind, s.waiting i kind + s.line.count (i, kind) ≤
    if i < s.calls.length then 1 else 0

variable {S} {s s' : State V} {a : Action V}

theorem waiting_set {i : ℕ} {e e' : Enqueued V} (hget : s.calls[i]? = some e)
    (hcalls : s'.calls = s.calls.set i e') (j : ℕ) (kind : Kind) :
    s'.calls.length = s.calls.length ∧
      s'.waiting j kind =
        if i = j then e'.waiting kind else s.waiting j kind := by
  refine ⟨by simp [hcalls], ?_⟩
  rw [State.waiting, hcalls, List.getElem?_set]
  split
  · simp [(List.getElem?_eq_some_iff.mp hget).1]
  · rfl

theorem line_deliver {message : Message V} (hdeliver : deliver s message = some s') :
    s'.calls = s.calls ∧ s'.queue = s.queue ∧
      s'.delivered.map Message.tag = s.delivered.map Message.tag ++ [message.tag] := by
  unfold deliver at hdeliver
  split at hdeliver
  · obtain ⟨e, -, rfl⟩ := Option.map_eq_some_iff.mp hdeliver
    simp [Message.tag]
  · obtain rfl := Option.some.inj hdeliver
    simp

structure Moved (s s' : State V) (i : ℕ) (kind : Kind) : Prop where
  length : s'.calls.length = s.calls.length
  waiting : ∀ j k, s'.waiting j k + [(i, kind)].count (j, k) = s.waiting j k

theorem moved_set {i : ℕ} {kind : Kind} {e e' : Enqueued V} (hget : s.calls[i]? = some e)
    (hcalls : s'.calls = s.calls.set i e')
    (hwaiting : ∀ k, e'.waiting k + [kind].count k = e.waiting k) : Moved s s' i kind := by
  refine ⟨by simp [hcalls], ?_⟩
  intro j k
  rw [(waiting_set hget hcalls j k).2, List.count_singleton]
  by_cases hij : i = j
  · subst hij
    have hk := hwaiting k
    rw [List.count_singleton] at hk
    simpa [State.waiting, hget] using hk
  · simp [hij]

/-- The read may end without a message, and adds none. -/
theorem waiting_read {call : ProxyCall V} {inFlight : Bool} (table : Table) (kind : Kind) :
    (⟨call, read S table call, inFlight⟩ : Enqueued V).waiting kind ≤
      (⟨call, .queued, inFlight⟩ : Enqueued V).waiting kind := by
  cases kind with
  | cached =>
      simp only [Enqueued.waiting]
      split <;> omega
  | network => exact Nat.le_refl _

/-- What a step does to the line: a call is added, a message comes to the front of
the queue or behind it, or the line stays. -/
theorem step_cases (hstep : step S s a = some s') :
    (∃ call, a = .enqueue call ∧ s' = enqueue s call) ∨
    (∃ i, a = .sendAtFrontOfQueue i ∧ Moved s s' i .cached ∧
      s'.line = s.delivered.map Message.tag ++ (i, .cached) :: s.queue.map Message.tag) ∨
    (∃ i result, a = .arrive i result ∧ Moved s s' i .network ∧
      s'.line = s.line ++ [(i, .network)]) ∨
    ((∀ s, Timely (V := V) s a) ∧ s'.calls.length = s.calls.length ∧
      (∀ i kind, s'.waiting i kind ≤ s.waiting i kind) ∧ s'.line = s.line) := by
  cases a with
  | enqueue call => exact .inl ⟨call, rfl, (Option.some.inj hstep).symm⟩
  | readCache i =>
      simp only [step] at hstep
      split at hstep
      · rename_i call inFlight hget
        obtain rfl := Option.some.inj hstep
        refine .inr (.inr (.inr ⟨fun _ ↦ trivial, by simp, ?_, rfl⟩))
        intro j kind
        rw [(waiting_set hget rfl j kind).2]
        split
        · rename_i hij
          subst hij
          rw [State.waiting, hget]
          exact waiting_read s.table kind
        · exact Nat.le_refl _
      · simp at hstep
  | sendAtFrontOfQueue i =>
      simp only [step] at hstep
      split at hstep
      · rename_i call cacheResponse inFlight hget
        obtain rfl := Option.some.inj hstep
        refine .inr (.inl ⟨i, rfl, moved_set hget rfl ?_, by simp [State.line, Message.tag]⟩)
        intro k
        cases k <;> simp [Enqueued.waiting]
      · simp at hstep
  | arrive i result =>
      simp only [step] at hstep
      split at hstep
      · rename_i call reading hget
        obtain rfl := Option.some.inj hstep
        refine .inr (.inr (.inl ⟨i, result, rfl, moved_set hget rfl ?_,
          by simp [State.line, Message.tag]⟩))
        intro k
        cases k <;> simp [Enqueued.waiting]
      · simp at hstep
  | loop =>
      simp only [step] at hstep
      split at hstep
      · simp at hstep
      · rename_i message queue hqueue
        obtain ⟨hcalls, hrest, htags⟩ := line_deliver hstep
        simp only at hcalls hrest htags
        refine .inr (.inr (.inr ⟨fun _ ↦ trivial, by rw [hcalls], ?_, ?_⟩))
        · intro i kind
          simp [State.waiting, hcalls]
        · simp [State.line, hrest, htags, hqueue]
  | save j =>
      simp only [step] at hstep
      split at hstep
      · simp at hstep
      · obtain rfl := Option.some.inj hstep
        exact .inr (.inr (.inr ⟨fun _ ↦ trivial, rfl, fun _ _ ↦ Nat.le_refl _, rfl⟩))

/-! ## Messages are not duplicated -/

theorem single_moved {i : ℕ} {kind : Kind} (h : Single s) (hmoved : Moved s s' i kind)
    (hline : ∀ m, s'.line.count m = s.line.count m + [(i, kind)].count m) : Single s' := by
  intro j k
  have hwaiting := hmoved.waiting j k
  have hbound := h j k
  rw [hline, hmoved.length]
  omega

theorem single_enqueue (h : Single s) (call : ProxyCall V) : Single (enqueue s call) := by
  intro i kind
  have hbound := h i kind
  have hline : (enqueue s call).line = s.line := rfl
  have hlength : (enqueue s call).calls.length = s.calls.length + 1 := by simp [enqueue]
  rw [hline, hlength]
  rcases Nat.lt_trichotomy i s.calls.length with hlt | heq | hgt
  · have hwaiting : (enqueue s call).waiting i kind = s.waiting i kind := by
      simp [State.waiting, enqueue, List.getElem?_append_left hlt]
    rw [hwaiting, if_pos (by omega)]
    simpa [hlt] using hbound
  · have hwaiting : (enqueue s call).waiting i kind ≤ 1 := by
      subst heq
      simp only [State.waiting, enqueue, List.getElem?_concat_length, Option.elim_some]
      cases kind with
      | cached =>
          simp only [Enqueued.waiting]
          split <;> omega
      | network => simp [Enqueued.waiting]
    rw [if_neg (by omega)] at hbound
    rw [if_pos (by omega)]
    omega
  · have hwaiting : (enqueue s call).waiting i kind = 0 := by
      simp only [State.waiting, enqueue]
      rw [List.getElem?_eq_none (by simp; omega), Option.elim_none]
    rw [if_neg (by omega)] at hbound
    omega

theorem single_step (h : Single s) (hstep : step S s a = some s') : Single s' := by
  obtain ⟨call, -, rfl⟩ | ⟨i, -, hmoved, hline⟩ | ⟨i, result, -, hmoved, hline⟩ |
    ⟨-, hlength, hwaiting, hline⟩ := step_cases hstep
  · exact single_enqueue h call
  · refine single_moved h hmoved fun m ↦ ?_
    rw [hline, State.line, List.map_append, List.count_append, List.count_append,
      ← List.singleton_append, List.count_append]
    omega
  · refine single_moved h hmoved fun m ↦ ?_
    rw [hline, List.count_append]
  · intro i kind
    have hbound := h i kind
    have hle := hwaiting i kind
    rw [hline, hlength]
    omega

/-! ## Messages do not get stale -/

theorem notStale_cached_iff {i : ℕ} {tags : List (ℕ × Kind)} :
    (∀ tag ∈ tags, NotStale tag (i, .cached)) ↔ (i, .network) ∉ tags := by
  constructor
  · intro h hmem
    exact h _ hmem i rfl rfl
  · rintro hnot tag hmem j rfl heq
    obtain rfl : i = j := congrArg Prod.fst heq
    exact hnot hmem

theorem line_step_iff (hstep : step S s a = some s') :
    s'.line.Pairwise NotStale ↔ s.line.Pairwise NotStale ∧ Timely s a := by
  obtain ⟨call, rfl, rfl⟩ | ⟨i, rfl, -, hline⟩ | ⟨i, result, rfl, -, hline⟩ |
    ⟨htimely, -, -, hline⟩ := step_cases hstep
  · exact (and_iff_left trivial).symm
  · -- the new message is behind what was delivered and before all the rest
    have hfront : ∀ tag ∈ s.queue.map Message.tag, NotStale (i, .cached) tag := by
      intro tag _ j heq
      simp at heq
    rw [hline, State.line, List.map_append, List.pairwise_append, List.pairwise_append,
      List.pairwise_cons, Timely, ← notStale_cached_iff]
    constructor
    · rintro ⟨hdelivered, ⟨-, hqueue⟩, hcross⟩
      refine ⟨⟨hdelivered, hqueue, ?_⟩, ?_⟩
      · intro x hx y hy
        exact hcross x hx y (by simp [hy])
      · intro x hx
        exact hcross x hx _ (by simp)
    · rintro ⟨⟨hdelivered, hqueue, hcross⟩, htimely⟩
      refine ⟨hdelivered, ⟨hfront, hqueue⟩, ?_⟩
      intro x hx y hy
      rcases List.mem_cons.mp hy with rfl | hy
      · exact htimely x hx
      · exact hcross x hx y hy
  · rw [hline, List.pairwise_append]
    constructor
    · rintro ⟨hbefore, -, -⟩
      exact ⟨hbefore, trivial⟩
    · rintro ⟨hbefore, -⟩
      refine ⟨hbefore, by simp, ?_⟩
      intro x _ y hy j _
      simp only [List.mem_singleton] at hy
      simp [hy]
  · rw [hline, and_iff_left (htimely s)]

/-- In every run that sends each cached response before the answer of the network
was delivered, the callbacks are called in order at every point; and when the main
thread is done with its messages, they were called in order only in such runs. -/
theorem orderly_iff_timely (S : Serialization V) {table : Table} {s : State V}
    {as : List (Action V)} (hrun : run (step S) { table := table } as = some s) :
    (StepsMeet (step S) Timely { table := table } as →
      StatesMeet (step S) Orderly { table := table } as) ∧
    (s.queue = [] → Orderly s → StepsMeet (step S) Timely { table := table } as) := by
  have hline : ∀ {bs u}, run (step S) { table := table } bs = some u →
      (u.line.Pairwise NotStale ↔ StepsMeet (step S) Timely { table := table } bs) := by
    intro bs u hu
    refine meets_iff_stepsMeet (I := fun _ ↦ True)
      (P := fun u : State V ↦ u.line.Pairwise NotStale)
      (fun _ _ _ _ _ ↦ trivial) ?_ trivial (by simp [State.line]) hu
    intro u a v _ hstep
    exact line_step_iff hstep
  constructor
  · intro htimely pre hpre u hu
    have hsingle : Single u := by
      refine run_invariant' (fun u a v hu hstep ↦ single_step hu hstep) ?_ hu
      intro i kind
      simp [State.waiting, State.line]
    have hpairwise : u.line.Pairwise NotStale := (hline hu).mpr (htimely.of_prefix hpre)
    rw [State.line, List.map_append] at hpairwise
    refine ⟨?_, (List.pairwise_append.mp hpairwise).1⟩
    intro i kind
    have hbound := hsingle i kind
    rw [State.line, List.map_append, List.count_append] at hbound
    split at hbound <;> omega
  · intro hqueue horderly
    refine (hline hrun).mp ?_
    simpa [State.line, hqueue] using horderly.order

def goodsTable : Table :=
  HiStorage.saveCache byteSerialization (fun _ ↦ none) goodsKey (some 1)

/-- The cache is read in time, but the executor thread goes on only after the
answer of the network was delivered. -/
def sentLate : List (Action ℕ) :=
  [.enqueue ⟨[], goodsRequest CacheStrategy.cacheFirst⟩, .readCache 0,
    .arrive 0 (.ok { data := some 2 }), .loop, .sendAtFrontOfQueue 0, .loop]

theorem orderly_iff_timely_late :
    ∃ s, run (step byteSerialization) { table := goodsTable } sentLate = some s ∧
      (StepsMeet (step byteSerialization) Timely { table := goodsTable } sentLate →
        StatesMeet (step byteSerialization) Orderly { table := goodsTable } sentLate) ∧
      (s.queue = [] → Orderly s →
        StepsMeet (step byteSerialization) Timely { table := goodsTable } sentLate) := by
  obtain ⟨s, hrun, -⟩ : ∃ s, run (step byteSerialization) { table := goodsTable } sentLate =
      some s ∧ s.queue = [] :=
    exists_run_of_any (by decide)
  exact ⟨s, hrun, orderly_iff_timely byteSerialization hrun⟩

/-- The callback is called with the old goods after the new ones. -/
theorem cached_after_network :
    ∃ s, run (step byteSerialization) { table := goodsTable } sentLate = some s ∧
      s.delivered.map Message.tag = [(0, .network), (0, .cached)] ∧ ¬ Orderly s := by
  obtain ⟨s, hrun, htags⟩ :
      ∃ s, run (step byteSerialization) { table := goodsTable } sentLate = some s ∧
        s.delivered.map Message.tag = [(0, .network), (0, .cached)] :=
    exists_run_of_any (by decide)
  refine ⟨s, hrun, htags, ?_⟩
  intro horderly
  have horder := horderly.order
  rw [htags, List.pairwise_pair] at horder
  exact horder 0 rfl rfl

end HiApp.Restful.Delivery
