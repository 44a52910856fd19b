import HiApp.Lib.Runs
import HiApp.Restful.Scheduler

/-!
# The two ways to make a call

The same responses of the server are received through `execute` on one device and
through `enqueue` on another.  After every call the entries for the key of the
request are compared, as they are once the saves handed to the executors have run.
-/

namespace HiApp.Restful

open Runs Storage

variable {V : Type*}

/-- The cache of one device, the saves that its executor has not run yet, oldest
first, and the number of times the network was read. -/
structure Side (V : Type*) where
  table : Table
  pending : List (SaveJob V) := []
  reads : ℕ := 0

namespace Side

variable (S : Serialization V)

def settled (side : Side V) : Table := side.pending.foldl (SaveJob.run S) side.table

def value (side : Side V) (key : String) : Option V :=
  HiStorage.getCache S (side.settled S) key

def save (side : Side V) : Option (Side V) :=
  match side.pending with
  | [] => none
  | job :: pending => some { side with table := job.run S side.table, pending := pending }

/-- A call has ended; if it saved `early`, then after all saves before it. -/
def complete (side : Side V) (early : Bool) (completed : Completed V) : Side V :=
  let side := { side with reads := side.reads + completed.network.toNat }
  match completed.saved with
  | none => side
  | some job =>
      let side := { side with pending := side.pending ++ [job] }
      if early then { side with table := side.settled S, pending := [] } else side

variable {S} {side side' : Side V}

theorem value_save (hsave : side.save S = some side') (key : String) :
    side'.value S key = side.value S key ∧ side'.reads = side.reads := by
  unfold save at hsave
  split at hsave
  · simp at hsave
  · rename_i job pending heq
    obtain rfl := Option.some.inj hsave
    simp [value, settled, heq]

@[simp] theorem complete_reads (early : Bool) (completed : Completed V) :
    (side.complete S early completed).reads = side.reads + completed.network.toNat := by
  unfold complete
  split
  · rfl
  · dsimp only
    split <;> rfl

theorem settled_complete (early : Bool) (completed : Completed V) :
    (side.complete S early completed).settled S =
      completed.saved.elim (side.settled S) (SaveJob.run S (side.settled S)) := by
  unfold complete
  split <;> rename_i heq
  · simp [settled, heq]
  · cases early <;> simp [settled, heq]

end Side

structure Devices (V : Type*) where
  executed : Side V
  enqueued : Side V
  calls : ℕ := 0

/-- Two devices that have the same cache. -/
def Devices.start (table : Table) : Devices V :=
  { executed := { table := table }, enqueued := { table := table } }

/-- A call with the response of the server, or a save of one of the executors. -/
inductive Happening (V : Type*) where
  | call (response : HiResponse V) (early : Bool)
  | saveExecuted
  | saveEnqueued

namespace ProxyCall

variable (S : Serialization V) (call : ProxyCall V)

def step (s : Devices V) : Happening V → Option (Devices V)
  | .call response early => some
      { executed := s.executed.complete S early
          (call.execute S s.executed.table early (.ok response))
        enqueued := s.enqueued.complete S false (call.enqueue (.ok response))
        calls := s.calls + 1 }
  | .saveExecuted => (s.executed.save S).map fun side ↦ { s with executed := side }
  | .saveEnqueued => (s.enqueued.save S).map fun side ↦ { s with enqueued := side }

/-- Both caches have the same value for the key, and every call has read the
network on both ways. -/
structure Agree (key : String) (s : Devices V) : Prop where
  value : s.executed.value S key = s.enqueued.value S key
  executed : s.executed.reads = s.calls
  enqueued : s.enqueued.reads = s.calls

/-- What is read after a save of the value. -/
def readBack (body : Option V) : Option V :=
  if (S.writeObject body).isSome then body else none

/-- The interceptors have made no difference to what is stored, `before` and
`after` being the data of the response before and after them. -/
def SameSaved (early : Bool) (stored : Option V) : (before after : Option V) → Prop
  | none, none => True
  | some before, some after =>
      early = true → readBack S (some before) = readBack S (some after)
  | none, some after => readBack S (some after) = stored
  | some before, none => (if early then readBack S (some before) else none) = stored

/-- A call that looks into the cache first finds nothing there, and for one that
saves, the interceptors make no difference. -/
def Alike (key : String) (s : Devices V) : Happening V → Prop
  | .call response early =>
      (call.sent.cacheStrategy = CacheStrategy.cacheFirst →
        HiStorage.getCache S s.executed.table key = none) ∧
      (call.sent.cacheStrategy = CacheStrategy.cacheFirst ∨
          call.sent.cacheStrategy = CacheStrategy.netCache →
        SameSaved S early (s.executed.value S key) response.data
          (call.received response).2.data)
  | .saveExecuted | .saveEnqueued => True

variable {S call} {key : String} {table : Table} {side : Side V}

theorem getCache_run {request : HiRequest LinkedHashMap}
    (hkey : request.getCacheKey = .ok key) (data : Option V) :
    HiStorage.getCache S (SaveJob.run S table ⟨request, data⟩) key = readBack S data := by
  simp only [SaveJob.run, hkey]
  exact HiStorage.getCache_saveCache_self data

theorem execute_of_hit (hkey : call.sent.getCacheKey = .ok key)
    (hfirst : call.sent.cacheStrategy = CacheStrategy.cacheFirst)
    (hhit : HiStorage.getCache S table key ≠ none) (early : Bool)
    (delegate : Except Throwable (HiResponse V)) :
    (call.execute S table early delegate).network = false := by
  simp [execute, hfirst, readCache, hkey, Option.isSome_iff_ne_none, hhit]

theorem execute_of_miss (hkey : call.sent.getCacheKey = .ok key)
    (hmiss : call.sent.cacheStrategy = CacheStrategy.cacheFirst →
      HiStorage.getCache S table key = none) (early : Bool)
    (delegate : Except Throwable (HiResponse V)) :
    call.execute S table early delegate = call.fetch early delegate := by
  unfold execute
  split
  · rename_i hfirst
    simp [readCache, hkey, hmiss hfirst]
  · rfl

theorem value_fetch (hkey : call.sent.getCacheKey = .ok key) (early : Bool)
    (response : HiResponse V) :
    (side.complete S early (call.fetch early (.ok response))).value S key =
      if needsSave call.sent response then
        readBack S (if early then response.data else (call.received response).2.data)
      else side.value S key := by
  have hkey' := (call.received_request response).2.trans hkey
  rw [Side.value, Side.settled_complete, fetch]
  by_cases hsave : needsSave call.sent response
  · cases early
    · simp [hsave, getCache_run hkey']
    · simp [hsave, getCache_run hkey]
  · simp [hsave, Side.value]

theorem value_enqueue (hkey : call.sent.getCacheKey = .ok key)
    (response : HiResponse V) :
    (side.complete S false (call.enqueue (.ok response))).value S key =
      if needsSave call.sent (call.received response).2 then
        readBack S (call.received response).2.data
      else side.value S key := by
  obtain ⟨hstrategy, hkey'⟩ := call.received_request response
  have hneeds : needsSave (call.received response).1 (call.received response).2 =
      needsSave call.sent (call.received response).2 := by
    simp [needsSave, hstrategy]
  rw [Side.value, Side.settled_complete, enqueue, onSuccess, hneeds]
  by_cases hsave : needsSave call.sent (call.received response).2
  · simp [hsave, getCache_run (hkey'.trans hkey)]
  · simp [hsave, Side.value]

@[simp] theorem readBack_none : readBack S none = none := by
  simp [readBack]

/-- The two values are the same exactly if the interceptors make no difference. -/
theorem saved_eq_iff_sameSaved {request : HiRequest LinkedHashMap}
    {before after : HiResponse V} {early : Bool} {stored : Option V} :
    (if needsSave request before then
        readBack S (if early then before.data else after.data) else stored) =
      (if needsSave request after then readBack S after.data else stored) ↔
    (request.cacheStrategy = CacheStrategy.cacheFirst ∨
        request.cacheStrategy = CacheStrategy.netCache →
      SameSaved S early stored before.data after.data) := by
  by_cases hsaves : request.cacheStrategy = CacheStrategy.cacheFirst ∨
      request.cacheStrategy = CacheStrategy.netCache
  · have hneeds : ∀ response : HiResponse V,
        needsSave request response = response.data.isSome := by
      intro response
      rw [needsSave, ← Bool.decide_or, decide_eq_true hsaves, Bool.true_and]
    rw [hneeds, hneeds]
    cases before.data with
    | none =>
        cases after.data with
        | none => simp [SameSaved]
        | some d => simp [SameSaved, hsaves, eq_comm (a := stored)]
    | some d =>
        cases after.data with
        | none => cases early <;> simp [SameSaved, hsaves]
        | some d' => cases early <;> simp [SameSaved, hsaves]
  · have hneeds : ∀ response : HiResponse V, needsSave request response = false := by
      intro response
      rw [needsSave, ← Bool.decide_or, decide_eq_false hsaves, Bool.false_and]
    simp [hneeds, hsaves]

/-- A step of agreeing devices leaves them agreeing exactly if it is alike. -/
theorem agree_step_iff (hkey : call.sent.getCacheKey = .ok key) {s s' : Devices V}
    {a : Happening V} (hs : Agree S key s) (hstep : call.step S s a = some s') :
    Agree S key s' ↔ call.Alike S key s a := by
  cases a with
  | call response early =>
      obtain rfl := Option.some.inj hstep
      by_cases hmiss : call.sent.cacheStrategy = CacheStrategy.cacheFirst →
          HiStorage.getCache S s.executed.table key = none
      · have hexecute := execute_of_miss hkey hmiss early (.ok response)
        rw [Alike, and_iff_right hmiss, ← saved_eq_iff_sameSaved, ← value_fetch hkey]
        constructor
        · intro h
          have hvalue := h.value
          rw [value_enqueue hkey, ← hs.value, hexecute] at hvalue
          exact hvalue
        · intro h
          constructor
          · rw [value_enqueue hkey, ← hs.value, hexecute]
            exact h
          · simp [hexecute, fetch, hs.executed]
          · simp [enqueue, hs.enqueued]
      · -- the network is not read on one way
        push Not at hmiss
        obtain ⟨hfirst, hhit⟩ := hmiss
        refine iff_of_false ?_ fun h ↦ hhit (h.1 hfirst)
        intro h
        have hreads := h.executed
        simp only [Side.complete_reads, execute_of_hit hkey hfirst hhit] at hreads
        simp [hs.executed] at hreads
  | saveExecuted =>
      obtain ⟨side, hside, rfl⟩ := Option.map_eq_some_iff.mp hstep
      obtain ⟨hvalue, hreads⟩ := Side.value_save hside key
      refine iff_of_true ⟨?_, ?_, hs.enqueued⟩ trivial
      · exact hvalue.trans hs.value
      · exact hreads.trans hs.executed
  | saveEnqueued =>
      obtain ⟨side, hside, rfl⟩ := Option.map_eq_some_iff.mp hstep
      obtain ⟨hvalue, hreads⟩ := Side.value_save hside key
      refine iff_of_true ⟨?_, hs.executed, ?_⟩ trivial
      · exact hs.value.trans hvalue.symm
      · exact hreads.trans hs.enqueued

/-- Along every sequence of calls the two ways agree on the cache and on reading
the network if and only if every call is alike on them. -/
theorem agree_iff_alike (S : Serialization V) (call : ProxyCall V) {key : String}
    (hkey : call.sent.getCacheKey = .ok key) {table : Table} {s : Devices V}
    {as : List (Happening V)}
    (hrun : run (call.step S) (.start table) as = some s) :
    StatesMeet (call.step S) (Agree S key) (.start table) as ↔
      StepsMeet (call.step S) (call.Alike S key) (.start table) as := by
  refine statesMeet_iff_stepsMeet (I := fun _ ↦ True) (D := fun _ _ ↦ True) ?_ ?_ trivial
    ⟨rfl, rfl, rfl⟩ stepsMeet_true hrun
  · exact fun _ _ _ _ _ _ _ _ ↦ trivial
  · intro u a v _ hu _ hstep
    exact agree_step_iff hkey hu hstep

end ProxyCall

def goodsCall : ProxyCall ℕ where
  interceptors := []
  request := goodsRequest CacheStrategy.cacheFirst

/-- The server answers twice, with different goods. -/
def goodsTwice : List (Happening ℕ) :=
  [.call { data := some 1 } false, .saveExecuted, .saveEnqueued,
    .call { data := some 2 } false, .saveEnqueued]

theorem agree_iff_alike_goods :
    ∃ s, run (goodsCall.step byteSerialization) (.start fun _ ↦ none) goodsTwice = some s ∧
      (StatesMeet (goodsCall.step byteSerialization)
          (ProxyCall.Agree byteSerialization goodsKey) (.start fun _ ↦ none) goodsTwice ↔
        StepsMeet (goodsCall.step byteSerialization)
          (goodsCall.Alike byteSerialization goodsKey) (.start fun _ ↦ none) goodsTwice) := by
  obtain ⟨s, hrun, -⟩ : ∃ s, run (goodsCall.step byteSerialization)
      (.start fun _ ↦ none) goodsTwice = some s ∧ s.calls = 2 :=
    exists_run_of_any (by decide +kernel)
  exact ⟨s, hrun, ProxyCall.agree_iff_alike byteSerialization goodsCall
    (goodsRequest_getCacheKey _) hrun⟩

/-- The second answer is not read on one of the ways, and the goods in the cache
stay as they were. -/
theorem second_answer_not_read :
    ∃ s, run (goodsCall.step byteSerialization) (.start fun _ ↦ none) goodsTwice = some s ∧
      s.executed.pending = [] ∧ s.enqueued.pending = [] ∧
      HiStorage.getCache byteSerialization s.executed.table goodsKey = some 1 ∧
      HiStorage.getCache byteSerialization s.enqueued.table goodsKey = some 2 ∧
      s.executed.reads = 1 ∧ s.enqueued.reads = 2 :=
  exists_run_of_any (by decide +kernel)

end HiApp.Restful
