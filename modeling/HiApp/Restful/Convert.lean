import HiApp.Restful.Scheduler

/-!
# Responses of the server

The call factory of the app parses bodies with `GsonConvert`, and the interceptors
of `ApiFactory` leave the responses alone.  Whether a response is saved depends on
its data only, and these on the kind of the field in the body.
-/

namespace HiApp.Restful

open Storage

variable {V : Type*}

/-- A value of org.json, with the text of an object or an array. -/
inductive JsonValue (V : Type*) where
  | null
  | scalar (value : V)
  | object (text : String)
  | array (text : String)

/-- The fields of a body that are read. -/
structure JsonObject (V : Type*) where
  code : ℤ := 0
  msg : String := ""
  data : Option (JsonValue V) := none

def JsonObject.response (json : JsonObject V) (rawData : String) : HiResponse V :=
  { code := json.code, msg := some json.msg, rawData := some rawData }

/-- What the converter uses of org.json and Gson.  `JSONObject(rawData)` throws with
a message; `fromJson` gives `none` where it throws, and may give `null`. -/
structure JsonLibrary (V : Type*) where
  null : V
  jsonObject : String → Except String (JsonObject V)
  fromJson : String → JavaType → Option (Option V)
  fromJsonMap : String → Option (Option LinkedHashMap)

namespace GsonConvert

variable (L : JsonLibrary V)

/-- The data of an object or an array; for a failed request they are those of the
error. -/
def convertText (response : HiResponse V) (text : String) (dataType : JavaType) :
    Except Throwable (HiResponse V) :=
  if response.code = HiResponse.success then
    match L.fromJson text dataType with
    | none => .error .jsonSyntaxException
    | some data => .ok { response with data := data }
  else
    match L.fromJsonMap text with
    | none => .error .jsonSyntaxException
    | some errorData => .ok { response with errorData := errorData }

def convert (rawData : String) (dataType : JavaType) :
    Except Throwable (HiResponse V) :=
  match L.jsonObject rawData with
  | .error message => .ok { code := -1, msg := some message, rawData := some rawData }
  | .ok jsonObject =>
      let response := jsonObject.response rawData
      match jsonObject.data with
      | some (.object text) | some (.array text) => convertText L response text dataType
      | some .null => .ok { response with data := some L.null }
      | some (.scalar value) => .ok { response with data := some value }
      | none => .ok response

end GsonConvert

structure RawResponse where
  isSuccessful : Bool
  body : Option String := none
  errorBody : Option String := none

def RawResponse.rawData (raw : RawResponse) : Option String :=
  if raw.isSuccessful then raw.body else raw.errorBody

/-- `RetrofitCall.parseResponse`. -/
def parseResponse (L : JsonLibrary V) (request : HiRequest LinkedHashMap)
    (raw : RawResponse) : Except Throwable (HiResponse V) :=
  match raw.rawData, request.returnType with
  | some rawData, some returnType => GsonConvert.convert L rawData returnType
  | _, _ => .error (.exception .nullPointer)

/-! ## The interceptors of the app -/

namespace ApiFactory

/-- `BizInterceptor`; it writes responses to the log. -/
def bizInterceptor (boardingPass : Option String) : Interceptor V where
  request request :=
    ((request.addHeader "boarding-pass" (boardingPass.getD "")).addHeader
      "auth-token" "MTU5Mjg1MDg3NDcwNw==", false)
  response _ response := (([], response), false)

/-- `HttpStatusInterceptor`; for some codes it opens another page. -/
def httpStatusInterceptor : Interceptor V where
  request request := (request, false)
  response _ response := (([], response), false)

/-- A call of a service of the app. -/
def call (boardingPass : Option String) (request : HiRequest LinkedHashMap) :
    ProxyCall V where
  interceptors := [bizInterceptor boardingPass, httpStatusInterceptor]
  request := request

variable {boardingPass : Option String} {request : HiRequest LinkedHashMap}

@[simp] theorem sent_getCacheKey :
    (call (V := V) boardingPass request).sent.getCacheKey = request.getCacheKey := rfl

@[simp] theorem sent_cacheStrategy :
    (call (V := V) boardingPass request).sent.cacheStrategy = request.cacheStrategy := rfl

@[simp] theorem received_eq (response : HiResponse V) :
    (call boardingPass request).received response =
      ((call (V := V) boardingPass request).sent, response) := rfl

end ApiFactory

/-! ## Calls and their saves -/

inductive Path where
  | execute (early : Bool)
  | enqueue
  deriving DecidableEq

/-- A call, the way it is made and what the network answers. -/
structure Exchange (V : Type*) where
  call : ProxyCall V
  path : Path
  delegate : Except Throwable (HiResponse V)

/-- The cache after the call and its save. -/
def Exchange.perform (S : Serialization V) (table : Table) (x : Exchange V) : Table :=
  let completed := match x.path with
    | .execute early => x.call.execute S table early x.delegate
    | .enqueue => x.call.enqueue x.delegate
  completed.saved.elim table (SaveJob.run S table)

/-- From `before` to `after` the entry for the key has not changed, and whatever
calls are made later, one that looks into the cache first is given the same as if
nothing had happened. -/
structure Untouched (S : Serialization V) (key : String) (before after : Table) :
    Prop where
  entry : after key = before key
  later : ∀ (calls : List (Exchange V)) (request : HiRequest LinkedHashMap),
    readCache S (calls.foldl (Exchange.perform S) after) request =
      readCache S (calls.foldl (Exchange.perform S) before) request

/-- A field without a plain value: it is missing, or an object or an array. -/
def Structured : Option (JsonValue V) → Prop
  | none | some (.object _) | some (.array _) => True
  | some .null | some (.scalar _) => False

/-- The body, if it can be read and reports a failure, has no plain value as its
data. -/
def FailsStructured (L : JsonLibrary V) (raw : RawResponse) : Prop :=
  ∀ rawData json, raw.rawData = some rawData → L.jsonObject rawData = .ok json →
    json.code ≠ HiResponse.success → Structured json.data

section

variable {S : Serialization V} {L : JsonLibrary V} {boardingPass : Option String}
  {request : HiRequest LinkedHashMap} {key : String} {path : Path} {table : Table}
  {response : HiResponse V}

theorem perform_of_data_none (hdata : response.data = none) :
    Exchange.perform S table ⟨ApiFactory.call boardingPass request, path, .ok response⟩ =
      table := by
  have hneeds : ∀ request, needsSave request response = false := by
    simp [needsSave, hdata]
  have hfetch : ∀ early, ((ApiFactory.call boardingPass request).fetch early
      (.ok response)).saved = none := by
    intro early
    simp [ProxyCall.fetch, hneeds]
  cases path with
  | execute early =>
      simp only [Exchange.perform, ProxyCall.execute]
      split
      · split
        · rfl
        · split
          · rfl
          · rw [hfetch, Option.elim_none]
      · rw [hfetch, Option.elim_none]
  | enqueue =>
      simp [Exchange.perform, ProxyCall.enqueue, ProxyCall.onSuccess, hneeds]

theorem perform_of_data_some {data : V} (hdata : response.data = some data)
    (hstrategy : request.cacheStrategy = CacheStrategy.cacheFirst ∨
      request.cacheStrategy = CacheStrategy.netCache)
    (hkey : request.getCacheKey = .ok key) :
    Exchange.perform S (fun _ ↦ none)
        ⟨ApiFactory.call boardingPass request, path, .ok response⟩ =
      HiStorage.saveCache S (fun _ ↦ none) key (some data) := by
  have hneeds : needsSave (ApiFactory.call (V := V) boardingPass request).sent response =
      true := by
    rw [needsSave, ApiFactory.sent_cacheStrategy, ← Bool.decide_or,
      decide_eq_true hstrategy, hdata]
    rfl
  have hempty : HiStorage.getCache S (fun _ ↦ none) key = none := rfl
  cases path with
  | execute early =>
      simp only [Exchange.perform, ProxyCall.execute, readCache,
        ApiFactory.sent_getCacheKey, hkey, hempty, Option.isSome_none]
      simp [ProxyCall.fetch, hneeds, SaveJob.run, hkey, hdata]
  | enqueue =>
      simp [Exchange.perform, ProxyCall.enqueue, ProxyCall.onSuccess, hneeds, SaveJob.run,
        hkey, hdata]

theorem convertText_data {text : String} {returnType : JavaType} {before : HiResponse V}
    (hconvert : GsonConvert.convertText L before text returnType = .ok response)
    (hcode : response.code ≠ HiResponse.success) (hdata : before.data = none) :
    response.data = none := by
  unfold GsonConvert.convertText at hconvert
  split at hconvert
  · rename_i hsuccess
    split at hconvert
    · simp at hconvert
    · rw [← Except.ok.inj hconvert] at hcode
      exact absurd hsuccess hcode
  · split at hconvert
    · simp at hconvert
    · rw [← Except.ok.inj hconvert]
      exact hdata

theorem convert_data {rawData : String} {returnType : JavaType}
    (hconvert : GsonConvert.convert L rawData returnType = .ok response)
    (hcode : response.code ≠ HiResponse.success)
    (hstructured : ∀ json, L.jsonObject rawData = .ok json →
      json.code ≠ HiResponse.success → Structured json.data) :
    response.data = none := by
  unfold GsonConvert.convert at hconvert
  cases hjson : L.jsonObject rawData with
  | error message =>
      simp only [hjson, Except.ok.injEq] at hconvert
      rw [← hconvert]
  | ok json =>
      have hplain : ∀ data, { json.response rawData with data := data } = response →
          Structured json.data := by
        rintro data rfl
        exact hstructured json hjson hcode
      simp only [hjson] at hconvert
      split at hconvert <;> rename_i hdata
      · exact convertText_data hconvert hcode rfl
      · exact convertText_data hconvert hcode rfl
      · exact absurd (hplain _ (Except.ok.inj hconvert)) (by simp [hdata, Structured])
      · exact absurd (hplain _ (Except.ok.inj hconvert)) (by simp [hdata, Structured])
      · rw [← Except.ok.inj hconvert]
        rfl

theorem convert_of_plain {rawData : String} {json : JsonObject V}
    (hjson : L.jsonObject rawData = .ok json) (hplain : ¬ Structured json.data)
    (returnType : JavaType) :
    ∃ response data, GsonConvert.convert L rawData returnType = .ok response ∧
      response.code = json.code ∧ response.data = some data := by
  simp only [GsonConvert.convert, hjson]
  split
  · simp_all [Structured]
  · simp_all [Structured]
  · exact ⟨_, _, rfl, rfl, rfl⟩
  · exact ⟨_, _, rfl, rfl, rfl⟩
  · simp_all [Structured]

end

/-- On either way, the failures that the server may report leave the cache alone if
and only if the body does not have a plain value as the data of a failure. -/
theorem untouched_iff_failsStructured (S : Serialization V) (L : JsonLibrary V)
    (boardingPass : Option String) {request : HiRequest LinkedHashMap} {key : String}
    {returnType : JavaType} (hkey : request.getCacheKey = .ok key)
    (hreturn : request.returnType = some returnType)
    (hstrategy : request.cacheStrategy = CacheStrategy.cacheFirst ∨
      request.cacheStrategy = CacheStrategy.netCache)
    (path : Path) (raw : RawResponse) :
    (∀ response, parseResponse L request raw = .ok response →
        response.code ≠ HiResponse.success → ∀ table, Untouched S key table
          (Exchange.perform S table
            ⟨ApiFactory.call boardingPass request, path, .ok response⟩)) ↔
      FailsStructured L raw := by
  constructor
  · intro huntouched rawData json hraw hjson hcode
    by_contra hplain
    obtain ⟨response, data, hconvert, hcode', hdata⟩ :=
      convert_of_plain hjson hplain returnType
    have hparse : parseResponse L request raw = .ok response := by
      simp only [parseResponse, hraw, hreturn, hconvert]
    have hentry := (huntouched response hparse (hcode' ▸ hcode) fun _ ↦ none).entry
    rw [perform_of_data_some hdata hstrategy hkey, HiStorage.saveCache_self] at hentry
    simp at hentry
  · intro hstructured response hparse hcode table
    cases hraw : raw.rawData with
    | none => simp [parseResponse, hraw] at hparse
    | some rawData =>
        simp only [parseResponse, hraw, hreturn] at hparse
        have hdata := convert_data hparse hcode fun json ↦ hstructured rawData json hraw
        rw [perform_of_data_none hdata]
        exact ⟨rfl, fun _ _ ↦ rfl⟩

/-- The user has to log in, and there is a number to that. -/
def loginAnswer : RawResponse where
  isSuccessful := true
  body := some "\x7b\"code\":5003,\"data\":7\x7d"

/-- The libraries, as far as this answer needs them. -/
def loginLibrary : JsonLibrary ℕ where
  null := 1000
  jsonObject rawData :=
    if rawData = "\x7b\"code\":5003,\"data\":7\x7d" then
      .ok { code := 5003, data := some (.scalar 7) }
    else .error ("Value " ++ rawData ++ " cannot be converted to JSONObject")
  fromJson _ _ := none
  fromJsonMap _ := none

theorem untouched_iff_failsStructured_login :
    (∀ response, parseResponse loginLibrary (goodsRequest CacheStrategy.netCache)
        loginAnswer = .ok response → response.code ≠ HiResponse.success → ∀ table,
          Untouched byteSerialization goodsKey table
            (Exchange.perform byteSerialization table
              ⟨ApiFactory.call none (goodsRequest CacheStrategy.netCache), .enqueue,
                .ok response⟩)) ↔
      FailsStructured loginLibrary loginAnswer :=
  untouched_iff_failsStructured byteSerialization loginLibrary none
    (goodsRequest_getCacheKey _) rfl (by decide) .enqueue loginAnswer

/-- On either way the number is cached, and given to later calls as goods. -/
theorem failure_cached :
    ∃ response, parseResponse loginLibrary (goodsRequest CacheStrategy.netCache)
        loginAnswer = .ok response ∧ response.code = 5003 ∧
      ∀ path after, after = Exchange.perform byteSerialization (fun _ ↦ none)
          ⟨ApiFactory.call none (goodsRequest CacheStrategy.netCache), path,
            .ok response⟩ →
        ¬ Untouched byteSerialization goodsKey (fun _ ↦ none) after ∧
          readCache byteSerialization after (goodsRequest CacheStrategy.cacheFirst) = .ok
            { data := some 7
              code := HiResponse.cacheSuccess
              msg := some "缓存获取成功" } := by
  obtain ⟨response, hparse, hcode, hdata⟩ : ∃ response,
      parseResponse loginLibrary (goodsRequest CacheStrategy.netCache) loginAnswer =
        .ok response ∧ response.code = 5003 ∧ response.data = some 7 :=
    ⟨_, rfl, rfl, rfl⟩
  refine ⟨response, hparse, hcode, ?_⟩
  rintro path _ rfl
  rw [perform_of_data_some hdata (by decide) (goodsRequest_getCacheKey CacheStrategy.netCache)]
  constructor
  · intro huntouched
    have hentry := huntouched.entry
    simp at hentry
  · simp only [readCache, goodsRequest_getCacheKey, HiStorage.getCache_saveCache_self]
    rfl

end HiApp.Restful
