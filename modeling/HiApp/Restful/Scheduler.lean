import HiApp.Restful.Request
import HiApp.Storage.HiStorage

/-!
# Calls through the scheduler

`ProxyCall` puts the interceptors and the cache around a call of the call factory.
The two ways to make a call take the same steps in different orders, and hand the
save of the response to the executor.
-/

namespace HiApp.Restful

open Storage

variable {V : Type*}

inductive Throwable where
  | exception (e : Exception)
  | ioException
  | jsonSyntaxException
  deriving DecidableEq

/-- What an interceptor does in the two periods, and whether it intercepts.  Before
the network it may change the request; later it may change the response, and add
headers to the request. -/
structure Interceptor (V : Type*) where
  request : HiRequest LinkedHashMap → HiRequest LinkedHashMap × Bool
  response : HiRequest LinkedHashMap → HiResponse V →
    (LinkedHashMap × HiResponse V) × Bool

def dispatch {ι β : Type*} (intercept : ι → β → β × Bool) : List ι → β → β
  | [], chain => chain
  | interceptor :: interceptors, chain =>
      match intercept interceptor chain with
      | (chain, true) => chain
      | (chain, false) => dispatch intercept interceptors chain

theorem dispatch_invariant {ι β : Type*} {intercept : ι → β → β × Bool} {I : β → Prop}
    (hstep : ∀ interceptor chain, I chain → I (intercept interceptor chain).1)
    (interceptors : List ι) {chain : β} (h : I chain) :
    I (dispatch intercept interceptors chain) := by
  induction interceptors generalizing chain with
  | nil => exact h
  | cons interceptor interceptors ih =>
      have hone := hstep interceptor chain h
      rw [dispatch]
      split <;> rename_i heq <;> rw [heq] at hone
      · exact hone
      · exact ih hone

namespace Interceptor

/-- One interceptor and the chain of a response. -/
def intercept (interceptor : Interceptor V)
    (chain : HiRequest LinkedHashMap × HiResponse V) :
    (HiRequest LinkedHashMap × HiResponse V) × Bool :=
  match interceptor.response chain.1 chain.2 with
  | ((added, response), stop) =>
      ((added.foldl (fun request e ↦ request.addHeader e.1 e.2) chain.1, response), stop)

end Interceptor

/-- A `ProxyCall`: the request and the interceptors of the scheduler. -/
structure ProxyCall (V : Type*) where
  interceptors : List (Interceptor V)
  request : HiRequest LinkedHashMap

/-- The background job of `saveCacheIfNeed`, with what its references lead to when
it runs. -/
structure SaveJob (V : Type*) where
  request : HiRequest LinkedHashMap
  data : Option V

def SaveJob.run (S : Serialization V) (table : Table) (job : SaveJob V) : Table :=
  match job.request.getCacheKey with
  | .error _ => table
  | .ok key => HiStorage.saveCache S table key job.data

/-- How a call ended: what the caller is given, whether the network was read, and
the save that was handed to the executor. -/
structure Completed (V : Type*) where
  response : Except Throwable (HiResponse V)
  network : Bool
  saved : Option (SaveJob V) := none

/-- The test of `saveCacheIfNeed`. -/
def needsSave (request : HiRequest LinkedHashMap) (response : HiResponse V) : Bool :=
  (decide (request.cacheStrategy = CacheStrategy.cacheFirst) ||
    decide (request.cacheStrategy = CacheStrategy.netCache)) && response.data.isSome

/-- `readCache`.  The key is kept in the request, where it makes no difference. -/
def readCache (S : Serialization V) (table : Table) (request : HiRequest LinkedHashMap) :
    Except Exception (HiResponse V) :=
  match request.getCacheKey with
  | .error e => .error e
  | .ok cacheKey => .ok
      { data := HiStorage.getCache S table cacheKey
        code := HiResponse.cacheSuccess
        msg := some "缓存获取成功" }

namespace ProxyCall

variable (S : Serialization V) (call : ProxyCall V)

/-- The request after `dispatchInterceptor(request, null)`. -/
def sent : HiRequest LinkedHashMap :=
  dispatch Interceptor.request call.interceptors call.request

/-- The request and the response after `dispatchInterceptor(request, response)`. -/
def received (response : HiResponse V) : HiRequest LinkedHashMap × HiResponse V :=
  dispatch Interceptor.intercept call.interceptors (call.sent, response)

/-- The part of `execute` from the network on.  The save that it hands over runs
`early`, before the interceptors have seen the response, or later. -/
def fetch (early : Bool) (delegate : Except Throwable (HiResponse V)) : Completed V :=
  match delegate with
  | .error e => { response := .error e, network := true }
  | .ok response =>
      let chain := call.received response
      { response := .ok chain.2
        network := true
        saved :=
          if needsSave call.sent response then
            some (if early then ⟨call.sent, response.data⟩ else ⟨chain.1, chain.2.data⟩)
          else none }

def execute (table : Table) (early : Bool)
    (delegate : Except Throwable (HiResponse V)) : Completed V :=
  if call.sent.cacheStrategy = CacheStrategy.cacheFirst then
    match readCache S table call.sent with
    | .error e => { response := .error (.exception e), network := false }
    | .ok cacheResponse =>
        if cacheResponse.data.isSome then
          { response := .ok cacheResponse, network := false }
        else call.fetch early delegate
  else call.fetch early delegate

/-- `onSuccess` of the callback that `enqueue` gives to the network call. -/
def onSuccess (response : HiResponse V) : HiResponse V × Option (SaveJob V) :=
  let chain := call.received response
  (chain.2, if needsSave chain.1 chain.2 then some ⟨chain.1, chain.2.data⟩ else none)

/-- What `enqueue` makes of the network; its cache read is apart from this. -/
def enqueue (delegate : Except Throwable (HiResponse V)) : Completed V :=
  match delegate with
  | .error e => { response := .error e, network := true }
  | .ok response =>
      { response := .ok (call.onSuccess response).1
        network := true
        saved := (call.onSuccess response).2 }

/-! ## What the interceptors leave alone -/

/-- The response changes neither the strategy nor the key of the request. -/
theorem received_request (response : HiResponse V) :
    (call.received response).1.cacheStrategy = call.sent.cacheStrategy ∧
      (call.received response).1.getCacheKey = call.sent.getCacheKey := by
  refine dispatch_invariant
    (I := fun chain : HiRequest LinkedHashMap × HiResponse V ↦
      chain.1.cacheStrategy = call.sent.cacheStrategy ∧
        chain.1.getCacheKey = call.sent.getCacheKey) ?_ _ ⟨rfl, rfl⟩
  intro interceptor chain hchain
  -- the headers are added one by one
  have hadded : ∀ (added : LinkedHashMap) (request : HiRequest LinkedHashMap),
      let request' := added.foldl (fun request e ↦ request.addHeader e.1 e.2) request
      request'.cacheStrategy = request.cacheStrategy ∧
        request'.getCacheKey = request.getCacheKey := by
    intro added
    induction added with
    | nil => exact fun _ ↦ ⟨rfl, rfl⟩
    | cons e added ih =>
        intro request
        simpa using ih (request.addHeader e.1 e.2)
  obtain ⟨hstrategy, hkey⟩ :=
    hadded (interceptor.response chain.1 chain.2).1.1 chain.1
  exact ⟨hstrategy.trans hchain.1, hkey.trans hchain.2⟩

end ProxyCall

/-! ## A request -/

def goodsRequest (cacheStrategy : ℤ) : HiRequest LinkedHashMap where
  cacheStrategy := cacheStrategy
  headers := some []
  parameters := some [("pageIndex", "1")]
  domainUrl := some "https://api.devio.org/as/"
  relativeUrl := some "goods/goods"
  returnType := some (.cls "GoodsList")

def goodsKey : String := "https://api.devio.org/as/goods/goods?pageIndex=1"

theorem goodsRequest_getCacheKey (cacheStrategy : ℤ) :
    (goodsRequest cacheStrategy).getCacheKey = .ok goodsKey := by
  change (goodsRequest 0).getCacheKey = .ok goodsKey
  decide +kernel

end HiApp.Restful
