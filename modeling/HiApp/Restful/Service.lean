import HiApp.Lib.Runs
import HiApp.Restful.MethodParser
import HiApp.Storage.HiStorage

/-!
# Calls of one service

`HiRestful` keeps one `MethodParser` for every method, and all requests of the
method refer to its two maps.  Invocations, headers added by interceptors and the
cache accesses of earlier calls, on threads of their own, come in any order.
-/

namespace HiApp.Restful

open Runs Storage

variable {μ V : Type*}

/-- A proxy made by `HiRestful.create`, with the methods `μ`. -/
structure HiRestful (μ : Type*) where
  baseUrl : String
  method : μ → Method

/-- A call of a method and the request that was made for it, with references to
the maps of the parser, and the headers that interceptors have added to it. -/
structure Invocation (μ : Type*) where
  method : μ
  args : List Argument
  request : HiRequest μ
  added : LinkedHashMap := []

/-- The request keeps its cache key once it was computed. -/
def Invocation.keepKey (inv : Invocation μ) (key : String) : Invocation μ :=
  { inv with request := { inv.request with cacheStrategyKey := key } }

inductive CacheEvent (V : Type*) where
  | read (i : ℕ) (key : String) (value : Option V)
  | saved (i : ℕ) (key : String) (value : Option V)
  deriving DecidableEq

def CacheEvent.call : CacheEvent V → ℕ
  | .read i _ _ | .saved i _ _ => i

def CacheEvent.key : CacheEvent V → String
  | .read _ key _ | .saved _ key _ => key

structure State (μ V : Type*) where
  methodService : μ → Option MethodParser := fun _ ↦ none
  calls : List (Invocation μ) := []
  table : Table := fun _ ↦ none
  trace : List (CacheEvent V) := []

namespace State

def headers (s : State μ V) (m : μ) : LinkedHashMap :=
  (s.methodService m).elim [] MethodParser.headers

def parameters (s : State μ V) (m : μ) : LinkedHashMap :=
  (s.methodService m).elim [] MethodParser.parameters

/-- The request with the present contents of its maps. -/
def deref (s : State μ V) (request : HiRequest μ) : HiRequest LinkedHashMap :=
  request.map s.headers s.parameters

end State

inductive Action (μ V : Type*) where
  | invoke (m : μ) (args : List Argument)
  | addHeader (i : ℕ) (name value : String)
  | readCache (i : ℕ)
  | saveCache (i : ℕ) (value : Option V)

namespace HiRestful

variable [DecidableEq μ] (R : HiRestful μ) (S : Serialization V)

def getParser (s : State μ V) (m : μ) : Except Exception MethodParser :=
  match s.methodService m with
  | some parser => .ok parser
  | none => MethodParser.parse R.baseUrl (R.method m)

/-- The invocation handler.  An exception goes to the caller; what the parser has
changed until then stays. -/
def invoke (s : State μ V) (m : μ) (args : List Argument) : State μ V :=
  match R.getParser s m with
  | .error _ => s
  | .ok parser =>
      match parser.newRequest m (R.method m) args with
      | (parser, result) =>
          let s := { s with
            methodService := Function.update s.methodService m (some parser) }
          match result with
          | .error _ => s
          | .ok request =>
              { s with calls := s.calls ++
                [{ method := m, args := args, request := request }] }

/-- `HiRequest.addHeader`, called by an interceptor.  A request of a parser has a
map for it. -/
def addHeader (s : State μ V) (i : ℕ) (name value : String) : Option (State μ V) :=
  match s.calls[i]? with
  | none => none
  | some inv =>
      match inv.request.headers with
      | none => none
      | some m =>
          some { s with
            methodService := Function.update s.methodService m
              ((s.methodService m).map fun parser ↦
                { parser with headers := parser.headers.put name value })
            calls := s.calls.set i { inv with added := inv.added ++ [(name, value)] } }

/-- A step that begins with `getCacheKey` of the `i`-th request; an exception ends
it. -/
def withCacheKey (s : State μ V) (i : ℕ) (next : State μ V → String → State μ V) :
    Option (State μ V) :=
  match s.calls[i]? with
  | none => none
  | some inv =>
      match (s.deref inv.request).getCacheKey with
      | .error _ => some s
      | .ok key =>
          some (next { s with calls := s.calls.set i (inv.keepKey key) } key)

def step (s : State μ V) : Action μ V → Option (State μ V)
  | .invoke m args => some (R.invoke s m args)
  | .addHeader i name value => addHeader s i name value
  | .readCache i => withCacheKey s i fun s key ↦
      { s with trace := s.trace ++ [.read i key (HiStorage.getCache S s.table key)] }
  | .saveCache i value => withCacheKey s i fun s key ↦
      { s with
        table := HiStorage.saveCache S s.table key value
        trace := s.trace ++ [.saved i key value] }

/-! ## Requests of their own -/

omit [DecidableEq μ] in
/-- The request of a call of the method with these arguments and nothing else. -/
def own (m : μ) (args : List Argument) : Except Exception (HiRequest LinkedHashMap) :=
  match MethodParser.parse R.baseUrl (R.method m) with
  | .error e => .error e
  | .ok parser =>
      match parser.newRequest () (R.method m) args with
      | (_, .error e) => .error e
      | (parser, .ok request) =>
          .ok (request.map (fun _ ↦ parser.headers) fun _ ↦ parser.parameters)

def keyOf (m : μ) (args : List Argument) : Except Exception String :=
  match R.own m args with
  | .error e => .error e
  | .ok request => request.getCacheKey

/-- The request of the call with the headers that were added to it. -/
def ownOf (inv : Invocation μ) : Except Exception (HiRequest LinkedHashMap) :=
  (R.own inv.method inv.args).map fun request ↦
    { request with headers := request.headers.map fun headers ↦
        inv.added.foldl (fun headers e ↦ headers.put e.1 e.2) headers }

end HiRestful

/-- What a request keeps. -/
structure HiRequest.Keeps (request own : HiRequest LinkedHashMap) : Prop where
  parameters : request.parameters = own.parameters
  headers : request.headers = own.headers
  relativeUrl : request.relativeUrl = own.relativeUrl
  cacheKey : request.getCacheKey = own.getCacheKey

namespace HiRestful

variable (R : HiRestful μ)

/-- Every request is as its own method and arguments and the headers added to it
make it, and the cache was accessed under the keys of such requests. -/
structure Isolated (s : State μ V) : Prop where
  request : ∀ inv ∈ s.calls, ∃ own, R.ownOf inv = .ok own ∧
    (s.deref inv.request).Keeps own
  key : ∀ event ∈ s.trace, ∃ inv, s.calls[event.call]? = some inv ∧
    R.keyOf inv.method inv.args = .ok event.key

/-- The parameters that a call of the method leaves in the map of its parser. -/
def parametersOf (m : μ) (args : List Argument) : LinkedHashMap :=
  match MethodParser.parse R.baseUrl (R.method m) with
  | .error _ => []
  | .ok parser => (parser.parseMethodParameters (R.method m) args).1.parameters

/-- The headers in the annotations of the method. -/
def headersOf (m : μ) : LinkedHashMap :=
  match MethodParser.parse R.baseUrl (R.method m) with
  | .error _ => []
  | .ok parser => parser.headers

/-- A method is invoked again only with the same parameters, and, if a request
comes of it, only while its headers are those of the annotations; a header is
added to a request only if no other request of the method is there, or if it
changes nothing. -/
def Undisturbed (s : State μ V) : Action μ V → Prop
  | .invoke m args =>
      (∀ inv ∈ s.calls, inv.method = m → R.parametersOf m inv.args = R.parametersOf m args) ∧
      ((R.own m args).isOk = true → s.methodService m ≠ none → s.headers m = R.headersOf m)
  | .addHeader i name value => ∀ inv, s.calls[i]? = some inv →
      ∀ j inv', s.calls[j]? = some inv' → j ≠ i → inv'.method = inv.method →
        (s.headers inv.method).put name value = s.headers inv.method
  | .readCache _ | .saveCache _ _ => True

/-! ## Parsers and requests -/

/-- The parser of the method, after any calls. -/
def IsParser (m : μ) (parser : MethodParser) : Prop :=
  ∃ fresh, MethodParser.parse R.baseUrl (R.method m) = .ok fresh ∧
    parser.relativeUrl = fresh.relativeUrl ∧ parser.domainUrl = fresh.domainUrl ∧
    (parser.replaceRelativeUrl.isSome → MethodParser.HasPath (R.method m))

/-- The request was made for this call: all but its maps is its own, and the key,
if it was computed, is. -/
def IsRequest (inv : Invocation μ) : Prop :=
  inv.request.headers = some inv.method ∧ inv.request.parameters = some inv.method ∧
    ∃ own, R.own inv.method inv.args = .ok own ∧
      inv.request.relativeUrl = own.relativeUrl ∧
      inv.request.domainUrl = own.domainUrl ∧
      (inv.request.cacheStrategyKey = "" ∨
        own.getCacheKey = .ok inv.request.cacheStrategyKey)

structure Linked (s : State μ V) : Prop where
  parser : ∀ m parser, s.methodService m = some parser → R.IsParser m parser
  call : ∀ inv ∈ s.calls, s.methodService inv.method ≠ none ∧ R.IsRequest inv

/-- The headers of the annotations and those added to the request. -/
def ownHeaders (inv : Invocation μ) : LinkedHashMap :=
  inv.added.foldl (fun headers e ↦ headers.put e.1 e.2) (R.headersOf inv.method)

/-- The maps of the parser are as the call would have them. -/
def HasMaps (s : State μ V) (inv : Invocation μ) : Prop :=
  s.parameters inv.method = R.parametersOf inv.method inv.args ∧
    s.headers inv.method = R.ownHeaders inv

variable {R} {s s' : State μ V} {m : μ} {args : List Argument}

theorem own_maps {own : HiRequest LinkedHashMap} (hown : R.own m args = .ok own) :
    own.parameters = some (R.parametersOf m args) ∧
      own.headers = some (R.headersOf m) ∧ own.cacheStrategyKey = "" := by
  unfold HiRestful.own at hown
  cases hparse : MethodParser.parse R.baseUrl (R.method m) with
  | error e => simp [hparse] at hown
  | ok fresh =>
      have hnone := MethodParser.parse_replaceRelativeUrl hparse
      obtain ⟨p', q', e, hp, hq, hparams, hheaders, -⟩ :=
        MethodParser.parseMethodParameters_eq (R.method m) (p := fresh) rfl rfl
          (by simp [hnone]) hnone args
      simp only [hparse, MethodParser.newRequest, hp] at hown
      cases e with
      | some e => simp at hown
      | none =>
          rw [← Except.ok.inj hown]
          simp [HiRequest.map, parametersOf, headersOf, hparse, hp, hheaders]

theorem getCacheKey_congr {r o : HiRequest LinkedHashMap}
    (hkey : r.cacheStrategyKey = o.cacheStrategyKey) (hurl : r.relativeUrl = o.relativeUrl)
    (hdomain : r.domainUrl = o.domainUrl) (hparams : r.parameters = o.parameters) :
    r.getCacheKey = o.getCacheKey := by
  have hend : r.endPointUrl = o.endPointUrl := by
    simp only [HiRequest.endPointUrl, hurl, hdomain]
  simp only [HiRequest.getCacheKey, hkey, hend, hparams]

/-- Among requests of their own calls, one keeps everything if its maps are as its
call would have them. -/
theorem keeps_iff_hasMaps {inv : Invocation μ} (h : R.IsRequest inv) :
    (∃ own, R.ownOf inv = .ok own ∧ (s.deref inv.request).Keeps own) ↔
      R.HasMaps s inv := by
  obtain ⟨hheaders, hparams, own, hown, hurl, hdomain, hkey⟩ := h
  obtain ⟨hownParams, hownHeaders, hempty⟩ := own_maps hown
  have hownOf : R.ownOf inv = .ok { own with headers := some (R.ownHeaders inv) } := by
    simp [ownOf, hown, Except.map, hownHeaders, ownHeaders]
  have hderef : s.deref inv.request = { inv.request with
      headers := some (s.headers inv.method)
      parameters := some (s.parameters inv.method) } := by
    simp [State.deref, HiRequest.map, hheaders, hparams]
  rw [hownOf, hderef]
  constructor
  · rintro ⟨own', hown', hkeeps⟩
    obtain rfl := Except.ok.inj hown'
    have hp := hkeeps.parameters
    have hh := hkeeps.headers
    simp only [hownParams, Option.some.injEq] at hp hh
    exact ⟨hp, hh⟩
  · rintro ⟨hp, hh⟩
    refine ⟨_, rfl, ?_⟩
    have hcomputed : ∀ r : HiRequest LinkedHashMap, r.cacheStrategyKey = "" →
        r.relativeUrl = own.relativeUrl → r.domainUrl = own.domainUrl →
        r.parameters = own.parameters → r.getCacheKey = own.getCacheKey := by
      intro r hr hurl' hdomain' hparams'
      exact getCacheKey_congr (hr.trans hempty.symm) hurl' hdomain' hparams'
    have hown'' := hcomputed { own with headers := some (R.ownHeaders inv) }
      hempty rfl rfl rfl
    constructor
    · simp [hp, hownParams]
    · simp [hh]
    · exact hurl
    · rw [hown'']
      rcases hkey with hkey | hkey
      · exact hcomputed _ hkey hurl hdomain (by simp [hp, hownParams])
      · by_cases hnil : inv.request.cacheStrategyKey = ""
        · exact hcomputed _ hnil hurl hdomain (by simp [hp, hownParams])
        · rw [hkey]
          simp [HiRequest.getCacheKey, hnil]

section

variable [DecidableEq μ]

omit [DecidableEq μ] in
theorem getParser_cases (h : R.Linked s) (m : μ) :
    (∃ e, s.methodService m = none ∧
      MethodParser.parse R.baseUrl (R.method m) = .error e ∧ R.getParser s m = .error e) ∨
    ∃ parser, R.getParser s m = .ok parser ∧ R.IsParser m parser ∧
      (s.methodService m ≠ none → parser.headers = s.headers m) ∧
      (s.methodService m = none → parser.headers = R.headersOf m) := by
  unfold getParser
  cases hcached : s.methodService m with
  | some parser =>
      right
      refine ⟨parser, rfl, h.parser m parser hcached, ?_, by simp⟩
      simp [State.headers, hcached]
  | none =>
      cases hparse : MethodParser.parse R.baseUrl (R.method m) with
      | error e => exact .inl ⟨e, rfl, rfl, rfl⟩
      | ok parser =>
          right
          have hnone := MethodParser.parse_replaceRelativeUrl hparse
          refine ⟨parser, rfl, ⟨parser, hparse, rfl, rfl, by simp [hnone]⟩, by simp, ?_⟩
          simp [headersOf, hparse]

/-- What an invocation does: nothing, if the method cannot be parsed; else the
parser is left with the parameters of this call, and a request is made of it if
the call is one from which a request can be made. -/
theorem invoke_cases (h : R.Linked s) (m : μ) (args : List Argument) :
    (s.methodService m = none ∧ (R.own m args).isOk = false ∧ R.invoke s m args = s) ∨
    ∃ parser', R.IsParser m parser' ∧ parser'.parameters = R.parametersOf m args ∧
      (s.methodService m ≠ none → parser'.headers = s.headers m) ∧
      (s.methodService m = none → parser'.headers = R.headersOf m) ∧
      ((R.own m args).isOk = false ∧ R.invoke s m args = { s with
          methodService := Function.update s.methodService m (some parser') } ∨
        ∃ inv : Invocation μ, (R.own m args).isOk = true ∧ R.IsRequest inv ∧
          inv.method = m ∧ inv.args = args ∧ inv.added = [] ∧
          R.invoke s m args = { s with
            methodService := Function.update s.methodService m (some parser')
            calls := s.calls ++ [inv] }) := by
  obtain ⟨e, hcached, hparse, hget⟩ | ⟨parser, hget, hparser, hold, hnew⟩ :=
    getParser_cases h m
  · left
    refine ⟨hcached, ?_, by simp [invoke, hget]⟩
    simp [own, hparse, Except.isOk, Except.toBool]
  right
  obtain ⟨fresh, hparse, hurl, hdomain, hpath⟩ := hparser
  have hnone := MethodParser.parse_replaceRelativeUrl hparse
  obtain ⟨p', q', e, hp, hq, hparams, hheaders, hurl', hdomain', -, hdomain'', hrequest⟩ :=
    MethodParser.parseMethodParameters_eq (R.method m) hurl hdomain hpath hnone args
  have hpath' : p'.replaceRelativeUrl.isSome → MethodParser.HasPath (R.method m) := by
    have hkept := MethodParser.hasPath_of_replaceRelativeUrl hpath args
    rwa [hp] at hkept
  refine ⟨p', ⟨fresh, hparse, hurl', hdomain', hpath'⟩, ?_, ?_, ?_, ?_⟩
  · simp [parametersOf, hparse, hq, hparams]
  · rw [hheaders]
    exact hold
  · rw [hheaders]
    exact hnew
  cases e with
  | some e =>
      left
      simp [own, invoke, hget, hparse, MethodParser.newRequest, hp, hq, Except.isOk,
        Except.toBool]
  | none =>
      right
      obtain ⟨request, hok, hrheaders, hrparams, hrurl, hrdomain, hrkey⟩ :=
        MethodParser.newRequest_of_ok hp m
      obtain ⟨made, hmade, -, -, hmurl, hmdomain, -⟩ :=
        MethodParser.newRequest_of_ok hq ()
      have hown : R.own m args =
          .ok (made.map (fun _ ↦ q'.headers) fun _ ↦ q'.parameters) := by
        simp only [own, hparse, hmade]
      refine ⟨{ method := m, args := args, request := request }, ?_, ?_, rfl, rfl, rfl, ?_⟩
      · simp [hown, Except.isOk, Except.toBool]
      · refine ⟨hrheaders, hrparams, _, hown, ?_, ?_, .inl hrkey⟩
        · rw [hrurl, hrequest rfl, ← hmurl]
          rfl
        · rw [hrdomain, hdomain', ← hdomain'', ← hmdomain]
          rfl
      · simp [invoke, hget, hok]

omit [DecidableEq μ] in
theorem isolated_iff (h : R.Linked s) :
    R.Isolated s ↔ (∀ inv ∈ s.calls, R.HasMaps s inv) ∧
      ∀ event ∈ s.trace, ∃ inv, s.calls[event.call]? = some inv ∧
        R.keyOf inv.method inv.args = .ok event.key := by
  constructor
  · intro hiso
    refine ⟨fun inv hinv ↦ ?_, hiso.key⟩
    exact (keeps_iff_hasMaps (h.call inv hinv).2).mp (hiso.request inv hinv)
  · rintro ⟨hmaps, hkey⟩
    refine ⟨fun inv hinv ↦ ?_, hkey⟩
    exact (keeps_iff_hasMaps (h.call inv hinv).2).mpr (hmaps inv hinv)

omit [DecidableEq μ] in
/-- A call keeps its key when only its request or the headers added to it change. -/
theorem key_set {calls : List (Invocation μ)} {i : ℕ} {inv inv' : Invocation μ}
    {event : CacheEvent V} (hget : calls[i]? = some inv)
    (hmethod : inv'.method = inv.method) (hargs : inv'.args = inv.args)
    (hkey : ∃ inv, calls[event.call]? = some inv ∧
      R.keyOf inv.method inv.args = .ok event.key) :
    ∃ inv, (calls.set i inv')[event.call]? = some inv ∧
      R.keyOf inv.method inv.args = .ok event.key := by
  obtain ⟨found, hfound, hk⟩ := hkey
  by_cases hi : event.call = i
  · rw [hi] at hfound ⊢
    obtain rfl := Option.some.inj (hget.symm.trans hfound)
    refine ⟨inv', List.getElem?_set_self (List.getElem?_eq_some_iff.mp hget).1, ?_⟩
    rw [hmethod, hargs]
    exact hk
  · refine ⟨found, ?_, hk⟩
    rw [List.getElem?_set_ne (Ne.symm hi)]
    exact hfound

theorem Linked.invoke (h : R.Linked s) (m : μ) (args : List Argument) :
    R.Linked (R.invoke s m args) := by
  obtain ⟨-, -, hs⟩ | ⟨parser', hparser', -, -, -, hcases⟩ := invoke_cases h m args
  · rw [hs]
    exact h
  have hupdate : ∀ m' parser, Function.update s.methodService m (some parser') m' =
      some parser → R.IsParser m' parser := by
    intro m' parser hget
    by_cases hm : m' = m
    · subst hm
      rw [Function.update_self, Option.some.injEq] at hget
      exact hget ▸ hparser'
    · rw [Function.update_of_ne hm] at hget
      exact h.parser m' parser hget
  have hcached : ∀ m', s.methodService m' ≠ none →
      Function.update s.methodService m (some parser') m' ≠ none := by
    intro m' hm'
    by_cases hm : m' = m
    · simp [hm]
    · rwa [Function.update_of_ne hm]
  obtain ⟨-, hs⟩ | ⟨inv, -, hinv, hm, -, -, hs⟩ := hcases
  · rw [hs]
    exact ⟨hupdate, fun inv hmem ↦
      ⟨hcached _ (h.call inv hmem).1, (h.call inv hmem).2⟩⟩
  · rw [hs]
    refine ⟨hupdate, ?_⟩
    intro inv' hmem
    rcases List.mem_append.mp hmem with hmem | hmem
    · exact ⟨hcached _ (h.call inv' hmem).1, (h.call inv' hmem).2⟩
    · obtain rfl := List.mem_singleton.mp hmem
      exact ⟨by simp [hm], hinv⟩

/-- The maps of the earlier requests of a method are those of its last call. -/
theorem hasMaps_invoke_iff (h : R.Linked s) (hmaps : ∀ inv ∈ s.calls, R.HasMaps s inv)
    {parser' : MethodParser} (hparams : parser'.parameters = R.parametersOf m args)
    (hold : s.methodService m ≠ none → parser'.headers = s.headers m)
    (hservice : s'.methodService = Function.update s.methodService m (some parser'))
    {inv : Invocation μ} (hmem : inv ∈ s.calls) :
    R.HasMaps s' inv ↔
      (inv.method = m → R.parametersOf m inv.args = R.parametersOf m args) := by
  obtain ⟨hp, hh⟩ := hmaps inv hmem
  by_cases hm : inv.method = m
  · have hsame : s'.headers m = s.headers m := by
      rw [← hold (hm ▸ (h.call inv hmem).1)]
      simp [State.headers, hservice]
    have hnow : s'.parameters m = R.parametersOf m args := by
      rw [← hparams]
      simp [State.parameters, hservice]
    rw [hm] at hh
    simp only [HasMaps, hm, hsame, hnow, hh, and_true, true_imp_iff]
    exact eq_comm
  · have hsame : R.HasMaps s' inv := by
      simpa [HasMaps, State.headers, State.parameters, hservice, hm] using hmaps inv hmem
    exact iff_of_true hsame fun heq ↦ absurd heq hm

/-- An invocation keeps the requests apart if and only if it brings the parameters
that are there, and finds the headers of the annotations. -/
theorem isolated_invoke_iff (h : R.Linked s) (hiso : R.Isolated s) (m : μ)
    (args : List Argument) :
    R.Isolated (R.invoke s m args) ↔ R.Undisturbed s (.invoke m args : Action μ V) := by
  rw [isolated_iff (h.invoke m args)]
  obtain ⟨hmaps, hkey⟩ := (isolated_iff h).mp hiso
  have hnever : s.methodService m = none → ∀ inv ∈ s.calls, inv.method ≠ m :=
    fun hnone inv hmem heq ↦ (h.call inv hmem).1 (heq ▸ hnone)
  obtain ⟨hnone, herror, hs⟩ | ⟨parser', -, hparams, hold, hnew, hcases⟩ :=
    invoke_cases h m args
  · rw [hs]
    refine iff_of_true ⟨hmaps, hkey⟩ ⟨?_, ?_⟩
    · intro inv hmem heq
      exact absurd heq (hnever hnone inv hmem)
    · intro hok
      simp [herror] at hok
  have hbefore : ∀ s' : State μ V,
      s'.methodService = Function.update s.methodService m (some parser') →
      ∀ inv ∈ s.calls, R.HasMaps s' inv ↔
        (inv.method = m → R.parametersOf m inv.args = R.parametersOf m args) := by
    intro s' hservice inv hmem
    exact hasMaps_invoke_iff h hmaps hparams hold hservice hmem
  obtain ⟨herror, hs⟩ | ⟨inv, hok, -, hm, hargs, hadded, hs⟩ := hcases
  · rw [hs]
    simp only [Undisturbed, herror, Bool.false_eq_true, false_imp_iff, and_true]
    constructor
    · rintro ⟨hmaps', -⟩ inv hmem
      exact (hbefore _ rfl inv hmem).mp (hmaps' inv hmem)
    · intro hsame
      exact ⟨fun inv hmem ↦ (hbefore _ rfl inv hmem).mpr (hsame inv hmem), hkey⟩
  · rw [hs]
    have hlast : R.HasMaps { s with
          methodService := Function.update s.methodService m (some parser')
          calls := s.calls ++ [inv] } inv ↔
        (s.methodService m ≠ none → s.headers m = R.headersOf m) := by
      have hown : R.ownHeaders inv = R.headersOf m := by
        simp [ownHeaders, hadded, hm]
      simp only [HasMaps, State.parameters, State.headers, hm, hargs, hown,
        Function.update_self, Option.elim_some, hparams, true_and]
      by_cases hnone : s.methodService m = none
      · simp [hnone, hnew hnone]
      · rw [hold hnone]
        simp [hnone, State.headers]
    simp only [Undisturbed, hok, true_imp_iff]
    constructor
    · rintro ⟨hmaps', -⟩
      refine ⟨fun inv' hmem ↦ ?_, ?_⟩
      · exact (hbefore _ rfl inv' hmem).mp (hmaps' inv' (List.mem_append_left _ hmem))
      · exact hlast.mp (hmaps' inv (List.mem_append_right _ (List.mem_singleton_self _)))
    · rintro ⟨hsame, hheaders⟩
      constructor
      · intro inv' hmem
        rcases List.mem_append.mp hmem with hmem | hmem
        · exact (hbefore _ rfl inv' hmem).mpr (hsame inv' hmem)
        · obtain rfl := List.mem_singleton.mp hmem
          exact hlast.mpr hheaders
      · intro event hevent
        obtain ⟨inv', hget, hk⟩ := hkey event hevent
        refine ⟨inv', ?_, hk⟩
        rw [List.getElem?_append_left (List.getElem?_eq_some_iff.mp hget).1]
        exact hget

theorem addHeader_cases (h : R.Linked s) {i : ℕ} {name value : String}
    (hstep : addHeader s i name value = some s') :
    ∃ inv, s.calls[i]? = some inv ∧ s' = { s with
      methodService := Function.update s.methodService inv.method
        ((s.methodService inv.method).map fun parser ↦
          { parser with headers := parser.headers.put name value })
      calls := s.calls.set i { inv with added := inv.added ++ [(name, value)] } } := by
  unfold addHeader at hstep
  split at hstep
  · simp at hstep
  rename_i inv hget
  have hinv := (h.call inv (List.mem_of_getElem? hget)).2
  rw [hinv.1] at hstep
  exact ⟨inv, hget, (Option.some.inj hstep).symm⟩

theorem Linked.addHeader (h : R.Linked s) {i : ℕ} {name value : String}
    (hstep : HiRestful.addHeader s i name value = some s') : R.Linked s' := by
  obtain ⟨inv, hget, rfl⟩ := addHeader_cases h hstep
  constructor
  · intro m parser hparser
    simp only at hparser
    by_cases hm : m = inv.method
    · subst hm
      rw [Function.update_self] at hparser
      obtain ⟨old, hold, rfl⟩ := Option.map_eq_some_iff.mp hparser
      exact h.parser inv.method old hold
    · rw [Function.update_of_ne hm] at hparser
      exact h.parser m parser hparser
  · have hcached : ∀ m, s.methodService m ≠ none →
        Function.update s.methodService inv.method
          ((s.methodService inv.method).map fun parser ↦
            { parser with headers := parser.headers.put name value }) m ≠ none := by
      intro m hm
      by_cases heq : m = inv.method
      · subst heq
        simpa using hm
      · rwa [Function.update_of_ne heq]
    intro inv' hmem
    rcases List.mem_or_eq_of_mem_set hmem with hmem | rfl
    · exact ⟨hcached _ (h.call inv' hmem).1, (h.call inv' hmem).2⟩
    · have hinv := h.call inv (List.mem_of_getElem? hget)
      exact ⟨hcached _ hinv.1, hinv.2⟩

theorem addHeader_maps (h : R.Linked s) {i : ℕ} {name value : String}
    (hstep : addHeader s i name value = some s') :
    ∃ inv, s.calls[i]? = some inv ∧
      s'.calls = s.calls.set i { inv with added := inv.added ++ [(name, value)] } ∧
      s'.trace = s.trace ∧ (∀ m, s'.parameters m = s.parameters m) ∧
      s'.headers inv.method = (s.headers inv.method).put name value ∧
      ∀ m, m ≠ inv.method → s'.headers m = s.headers m := by
  obtain ⟨inv, hget, rfl⟩ := addHeader_cases h hstep
  obtain ⟨parser, hparser⟩ := Option.ne_none_iff_exists'.mp
    (h.call inv (List.mem_of_getElem? hget)).1
  refine ⟨inv, hget, rfl, rfl, ?_, ?_, ?_⟩
  · intro m
    by_cases hm : m = inv.method
    · simp [State.parameters, hm, hparser]
    · simp [State.parameters, hm]
  · simp [State.headers, hparser]
  · intro m hm
    simp [State.headers, hm]

/-- An added header keeps the requests apart if and only if no other request sees
it. -/
theorem isolated_addHeader_iff (h : R.Linked s) (hiso : R.Isolated s) {i : ℕ}
    {name value : String} (hstep : addHeader s i name value = some s') :
    R.Isolated s' ↔ R.Undisturbed s (.addHeader i name value : Action μ V) := by
  rw [isolated_iff (h.addHeader hstep)]
  obtain ⟨hmaps, hkey⟩ := (isolated_iff h).mp hiso
  obtain ⟨inv, hget, hcalls, htrace, hparams, hheaders, hothers⟩ := addHeader_maps h hstep
  obtain ⟨hlt, -⟩ := List.getElem?_eq_some_iff.mp hget
  -- the headers of the request itself grow with the map
  have hself : R.HasMaps s' { inv with added := inv.added ++ [(name, value)] } := by
    obtain ⟨hp, hh⟩ := hmaps inv (List.mem_of_getElem? hget)
    refine ⟨(hparams inv.method).trans hp, ?_⟩
    rw [hheaders, hh]
    simp [ownHeaders]
  have hother : ∀ inv' ∈ s.calls, R.HasMaps s' inv' ↔ (inv'.method = inv.method →
      (s.headers inv.method).put name value = s.headers inv.method) := by
    intro inv' hmem
    obtain ⟨hp, hh⟩ := hmaps inv' hmem
    by_cases hm : inv'.method = inv.method
    · rw [hm] at hh hp
      simp only [HasMaps, hm, hparams, hheaders, hp, ← hh, true_and, true_imp_iff]
    · refine iff_of_true ⟨(hparams _).trans hp, (hothers _ hm).trans hh⟩ ?_
      exact fun heq ↦ absurd heq hm
  constructor
  · rintro ⟨hmaps', -⟩ inv₁ hget₁ j inv' hget' hj hm
    obtain rfl := Option.some.inj (hget.symm.trans hget₁)
    have hmem : inv' ∈ s'.calls := by
      apply List.mem_of_getElem? (i := j)
      rw [hcalls, List.getElem?_set_ne (Ne.symm hj)]
      exact hget'
    exact (hother inv' (List.mem_of_getElem? hget')).mp (hmaps' inv' hmem) hm
  · intro hunseen
    constructor
    · intro inv' hmem
      obtain ⟨j, hget'⟩ := List.mem_iff_getElem?.mp hmem
      rw [hcalls] at hget'
      by_cases hj : j = i
      · subst hj
        rw [List.getElem?_set_self hlt, Option.some.injEq] at hget'
        exact hget' ▸ hself
      · rw [List.getElem?_set_ne (Ne.symm hj)] at hget'
        apply (hother inv' (List.mem_of_getElem? hget')).mpr
        exact hunseen inv hget j inv' hget' hj
    · intro event hevent
      rw [htrace] at hevent
      rw [hcalls]
      exact key_set hget rfl rfl (hkey event hevent)

omit [DecidableEq μ] in
theorem access_cases (h : R.Linked s) (hiso : R.Isolated s) {i : ℕ}
    {next : State μ V → String → State μ V} (hstep : withCacheKey s i next = some s') :
    s' = s ∨ ∃ inv key, s.calls[i]? = some inv ∧
      R.keyOf inv.method inv.args = .ok key ∧
      R.IsRequest (inv.keepKey key) ∧
      s' = next { s with calls := s.calls.set i (inv.keepKey key) } key := by
  unfold withCacheKey at hstep
  split at hstep
  · simp at hstep
  rename_i inv hget
  split at hstep
  · exact .inl (Option.some.inj hstep).symm
  rename_i key hkey
  have hmem := List.mem_of_getElem? hget
  obtain ⟨hheaders, hparams, own, hown, hurl, hdomain, -⟩ := (h.call inv hmem).2
  obtain ⟨own', hown', hkeeps⟩ := hiso.request inv hmem
  have hown'' : own'.getCacheKey = own.getCacheKey := by
    simp only [ownOf, hown, Except.map, Except.ok.injEq] at hown'
    rw [← hown']
    exact getCacheKey_congr rfl rfl rfl rfl
  have hk : own.getCacheKey = .ok key := by
    rw [← hown'', ← hkeeps.cacheKey, hkey]
  refine .inr ⟨inv, key, hget, by simp [keyOf, hown, hk], ?_, (Option.some.inj hstep).symm⟩
  exact ⟨hheaders, hparams, own, hown, hurl, hdomain, .inr hk⟩

omit [DecidableEq μ] in
theorem isolated_access (h : R.Linked s) (hiso : R.Isolated s) {i : ℕ} {inv : Invocation μ}
    {key : String} {e : CacheEvent V} (hget : s.calls[i]? = some inv)
    (hk : R.keyOf inv.method inv.args = .ok key)
    (hinv : R.IsRequest (inv.keepKey key))
    (hservice : s'.methodService = s.methodService)
    (hcalls : s'.calls = s.calls.set i (inv.keepKey key))
    (htrace : s'.trace = s.trace ++ [e]) (hcall : e.call = i) (hevent : e.key = key) :
    R.Linked s' ∧ R.Isolated s' := by
  obtain ⟨hmaps, hkey⟩ := (isolated_iff h).mp hiso
  obtain ⟨hlt, -⟩ := List.getElem?_eq_some_iff.mp hget
  have hmem := List.mem_of_getElem? hget
  have hlinked : R.Linked s' := by
    constructor
    · rw [hservice]
      exact h.parser
    · intro inv' hmem'
      rw [hservice]
      rw [hcalls] at hmem'
      rcases List.mem_or_eq_of_mem_set hmem' with hmem' | rfl
      · exact h.call inv' hmem'
      · exact ⟨(h.call inv hmem).1, hinv⟩
  have hsame : ∀ inv', R.HasMaps s' inv' ↔ R.HasMaps s inv' := by
    intro inv'
    simp [HasMaps, State.headers, State.parameters, hservice]
  refine ⟨hlinked, (isolated_iff hlinked).mpr ⟨?_, ?_⟩⟩
  · intro inv' hmem'
    rw [hcalls] at hmem'
    rw [hsame]
    rcases List.mem_or_eq_of_mem_set hmem' with hmem' | rfl
    · exact hmaps inv' hmem'
    · exact hmaps inv hmem
  · intro event' hevent'
    rw [htrace] at hevent'
    rw [hcalls]
    rcases List.mem_append.mp hevent' with hevent' | hevent'
    · exact key_set hget rfl rfl (hkey event' hevent')
    · obtain rfl := List.mem_singleton.mp hevent'
      rw [hcall]
      exact ⟨_, List.getElem?_set_self hlt, hevent ▸ hk⟩

variable {S : Serialization V}

theorem linked_step {a : Action μ V} (h : R.Linked s) (hiso : R.Isolated s)
    (hstep : R.step S s a = some s') :
    R.Linked s' ∧ (R.Isolated s' ↔ R.Undisturbed s a) := by
  cases a with
  | invoke m args =>
      obtain rfl := Option.some.inj hstep
      exact ⟨h.invoke m args, isolated_invoke_iff h hiso m args⟩
  | addHeader i name value =>
      exact ⟨h.addHeader hstep, isolated_addHeader_iff h hiso hstep⟩
  | readCache i =>
      simp only [step] at hstep
      obtain rfl | ⟨inv, key, hget, hk, hinv, hs'⟩ := access_cases h hiso hstep
      · exact ⟨h, iff_of_true hiso trivial⟩
      · obtain ⟨hlinked, hiso'⟩ : R.Linked s' ∧ R.Isolated s' := isolated_access
          (e := .read i key (HiStorage.getCache S s.table key)) h hiso hget hk hinv
          (by rw [hs']) (by rw [hs']) (by rw [hs']) rfl rfl
        exact ⟨hlinked, iff_of_true hiso' trivial⟩
  | saveCache i value =>
      simp only [step] at hstep
      obtain rfl | ⟨inv, key, hget, hk, hinv, hs'⟩ := access_cases h hiso hstep
      · exact ⟨h, iff_of_true hiso trivial⟩
      · obtain ⟨hlinked, hiso'⟩ : R.Linked s' ∧ R.Isolated s' := isolated_access
          (e := .saved i key value) h hiso hget hk hinv
          (by rw [hs']) (by rw [hs']) (by rw [hs']) rfl rfl
        exact ⟨hlinked, iff_of_true hiso' trivial⟩

end

/-- Along every run of a service, every request keeps what its own method and
arguments made of it, and the cache is accessed under such keys only, if and only
if no step disturbs a request of another call. -/
theorem isolated_iff_undisturbed [DecidableEq μ] (R : HiRestful μ) (S : Serialization V)
    {table : Table} {s : State μ V} {as : List (Action μ V)}
    (hrun : run (R.step S) { table := table } as = some s) :
    StatesMeet (R.step S) R.Isolated { table := table } as ↔
      StepsMeet (R.step S) R.Undisturbed { table := table } as := by
  refine statesMeet_iff_stepsMeet (I := R.Linked) (D := fun _ _ ↦ True) ?_ ?_
    ⟨by simp, by simp⟩ ⟨by simp, by simp⟩ stepsMeet_true hrun
  · intro u a v hu hiso _ _ hstep
    exact (linked_step hu hiso hstep).1
  · intro u a v hu hiso _ hstep
    exact (linked_step hu hiso hstep).2

end HiRestful

def searchService : HiRestful Unit where
  baseUrl := "https://api.devio.org/as/"
  method _ :=
    { name := "search"
      annotations := [.get "goods/search"]
      parameterAnnotations := [[.filed "keyword"]]
      genericReturnType := .parameterized "HiCall" [.cls "GoodsList"] }

/-- Two searches, and the answer to the first is saved. -/
def searchTwice : List (Action Unit ℕ) :=
  [.invoke () [.string "shoes"], .invoke () [.string "hats"], .saveCache 0 (some 7)]

theorem isolated_iff_undisturbed_search :
    ∃ s, run (searchService.step byteSerialization) {} searchTwice = some s ∧
      (StatesMeet (searchService.step byteSerialization) searchService.Isolated {}
          searchTwice ↔
        StepsMeet (searchService.step byteSerialization) searchService.Undisturbed {}
          searchTwice) := by
  refine ⟨_, rfl, ?_⟩
  exact @HiRestful.isolated_iff_undisturbed Unit ℕ _ searchService byteSerialization
    (fun _ ↦ none) _ searchTwice rfl

/-- The answer to the first search is saved as that to the second. -/
theorem saved_under_other_key :
    ∃ s, run (searchService.step byteSerialization) {} searchTwice = some s ∧
      s.trace =
        [.saved 0 "https://api.devio.org/as/goods/search?keyword=hats" (some 7)] ∧
      searchService.keyOf () [.string "shoes"] =
        .ok "https://api.devio.org/as/goods/search?keyword=shoes" ∧
      ¬ searchService.Isolated s := by
  refine ⟨_, rfl, ?_, ?_, ?_⟩
  · decide
  · decide
  · intro hiso
    obtain ⟨inv, hget, hkey⟩ := hiso.key
      (.saved 0 "https://api.devio.org/as/goods/search?keyword=hats" (some 7))
      (by decide)
    obtain rfl := Option.some.inj (show some _ = some inv from hget)
    revert hkey
    decide

end HiApp.Restful
