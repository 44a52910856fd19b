import Mathlib.Data.Int.Notation
import Mathlib.Data.List.Basic

/-!
# Requests and responses

`HiRequest` with its endpoint and its cache key, and `HiResponse`.  The maps of a
request are references; a request is over the type `M` of what stands for them, a
map itself once the references are followed.
-/

namespace HiApp.Restful

namespace CacheStrategy

def cacheFirst : ℤ := 0

def netOnly : ℤ := 1

def netCache : ℤ := 2

end CacheStrategy

/-- `java.util.LinkedHashMap` of strings, in the order of insertion. -/
abbrev LinkedHashMap := List (String × String)

namespace LinkedHashMap

/-- A key that is there keeps its place. -/
def put (m : LinkedHashMap) (key value : String) : LinkedHashMap :=
  if key ∈ m.map Prod.fst then
    m.map fun e ↦ if e.1 = key then (key, value) else e
  else m ++ [(key, value)]

theorem lookup_cons_eq_ite (m : LinkedHashMap) (key value name : String) :
    List.lookup name ((key, value) :: m) = if name = key then some value else m.lookup name := by
  rw [List.lookup_cons]
  by_cases hname : name = key
  · rw [if_pos hname, beq_iff_eq.mpr hname]
  · rw [if_neg hname, beq_eq_false_iff_ne.mpr hname]

theorem lookup_map_of_ne (m : LinkedHashMap) {key name : String} (value : String)
    (hname : name ≠ key) :
    (m.map fun e ↦ if e.1 = key then (key, value) else e).lookup name = m.lookup name := by
  induction m with
  | nil => rfl
  | cons e m ih =>
      obtain ⟨k, v⟩ := e
      rw [List.map_cons, lookup_cons_eq_ite]
      by_cases hk : k = key
      · rw [if_pos hk, lookup_cons_eq_ite, hk, if_neg hname, if_neg hname, ih]
      · rw [if_neg hk, lookup_cons_eq_ite, ih]

theorem lookup_map_self {m : LinkedHashMap} {key : String} (hkey : key ∈ m.map Prod.fst)
    (value : String) :
    (m.map fun e ↦ if e.1 = key then (key, value) else e).lookup key = some value := by
  induction m with
  | nil => simp at hkey
  | cons e m ih =>
      obtain ⟨k, v⟩ := e
      rw [List.map_cons]
      by_cases hk : k = key
      · rw [if_pos hk, lookup_cons_eq_ite, if_pos rfl]
      · have hmem : key ∈ m.map Prod.fst := by simpa [Ne.symm hk] using hkey
        rw [if_neg hk, lookup_cons_eq_ite, if_neg (Ne.symm hk), ih hmem]

theorem lookup_put (m : LinkedHashMap) (key value name : String) :
    (m.put key value).lookup name = if name = key then some value else m.lookup name := by
  unfold LinkedHashMap.put
  by_cases hname : name = key
  · rw [if_pos hname, hname]
    split
    · exact lookup_map_self ‹_› value
    · have hnone : m.lookup key = none := by
        rw [List.lookup_eq_none_iff]
        rintro ⟨k, v⟩ hmem
        exact bne_iff_ne.mpr fun hk ↦ ‹key ∉ m.map Prod.fst› (hk ▸ List.mem_map_of_mem hmem)
      rw [List.lookup_append, hnone, Option.none_or, lookup_cons_eq_ite, if_pos rfl]
  · rw [if_neg hname]
    split
    · exact lookup_map_of_ne m value hname
    · rw [List.lookup_append, lookup_cons_eq_ite, if_neg hname, List.lookup_nil, Option.or_none]

end LinkedHashMap

inductive Exception where
  | illegalState (message : String)
  | illegalArgument (message : String)
  | nullPointer
  | indexOutOfBounds
  | classCast
  | missingFormatArgument
  deriving DecidableEq, Repr

inductive JavaType where
  | cls (name : String)
  | parameterized (rawType : String) (actualTypeArguments : List JavaType)
  | genericArray (genericComponentType : JavaType)
  | typeVariable
  | wildcard

/-! ## Texts -/

def indexOf (s : String) (c : Char) : Option ℕ := s.toList.idxOf? c

namespace URLEncoder

def hexDigit (n : ℕ) : Char :=
  "0123456789ABCDEF".toList.getD n '0'

/-- Letters, digits, `.`, `-`, `*` and `_` stay, a space becomes a plus sign, and
the bytes of everything else are written in hexadecimal. -/
def encodeChar (c : Char) : List Char :=
  if c.isAlphanum || c = '.' || c = '-' || c = '*' || c = '_' then [c]
  else if c = ' ' then ['+']
  else (String.utf8EncodeChar c).flatMap fun b ↦
    ['%', hexDigit (b.toNat / 16), hexDigit (b.toNat % 16)]

/-- `URLEncoder.encode(s, "UTF-8")`. -/
def encode (s : String) : String := String.ofList (s.toList.flatMap encodeChar)

end URLEncoder

/-! ## Requests -/

structure HiRequest (M : Type*) where
  cacheStrategyKey : String := ""
  cacheStrategy : ℤ := CacheStrategy.netOnly
  httpMethod : ℤ := 0
  headers : Option M := none
  parameters : Option M := none
  domainUrl : Option String := none
  relativeUrl : Option String := none
  returnType : Option JavaType := none
  formPost : Bool := true

namespace HiRequest

variable {M N : Type*}

/-- Follow the references. -/
def map (request : HiRequest M) (headers parameters : M → N) : HiRequest N :=
  { request with
    headers := request.headers.map headers
    parameters := request.parameters.map parameters }

def endPointUrl (request : HiRequest M) : Except Exception String :=
  match request.relativeUrl with
  | none => .error (.illegalState "relative url must bot be null ")
  | some relativeUrl =>
      if relativeUrl.toList.head? ≠ some '/' then
        .ok (request.domainUrl.getD "null" ++ relativeUrl)
      else
        match request.domainUrl with
        | none => .error .nullPointer
        | some domainUrl =>
            match indexOf domainUrl '/' with
            | none => .error .indexOutOfBounds
            | some index =>
                .ok (String.ofList (domainUrl.toList.take index) ++ relativeUrl)

/-- The text that `getCacheKey` builds from the endpoint and the parameters; the
last character, an ampersand or the separator, is taken off. -/
def buildCacheKey (endUrl : String) (parameters : LinkedHashMap) : String :=
  let separator := if (indexOf endUrl '?').any (0 < ·) || (indexOf endUrl '&').any (0 < ·)
    then '&' else '?'
  let builder := parameters.foldl
    (fun builder e ↦ builder ++ e.1.toList ++ ['='] ++
      (URLEncoder.encode e.2).toList ++ ['&'])
    (endUrl.toList ++ [separator])
  String.ofList builder.dropLast

/-- `getCacheKey`; the key is kept once it was computed. -/
def getCacheKey (request : HiRequest LinkedHashMap) : Except Exception String :=
  if request.cacheStrategyKey ≠ "" then .ok request.cacheStrategyKey
  else
    match request.endPointUrl with
    | .error e => .error e
    | .ok endUrl =>
        match request.parameters with
        | some parameters => .ok (buildCacheKey endUrl parameters)
        | none => .ok endUrl

def addHeader (request : HiRequest LinkedHashMap) (name value : String) :
    HiRequest LinkedHashMap :=
  { request with headers := some ((request.headers.getD []).put name value) }

@[simp] theorem addHeader_cacheStrategy (request : HiRequest LinkedHashMap)
    (name value : String) :
    (request.addHeader name value).cacheStrategy = request.cacheStrategy := rfl

@[simp] theorem addHeader_getCacheKey (request : HiRequest LinkedHashMap)
    (name value : String) :
    (request.addHeader name value).getCacheKey = request.getCacheKey := rfl

end HiRequest

/-! ## Responses -/

structure HiResponse (V : Type*) where
  rawData : Option String := none
  code : ℤ := 0
  data : Option V := none
  errorData : Option LinkedHashMap := none
  msg : Option String := none
  deriving DecidableEq

namespace HiResponse

def success : ℤ := 0

def cacheSuccess : ℤ := 304

def successful {V : Type*} (response : HiResponse V) : Bool :=
  decide (response.code = success) || decide (response.code = cacheSuccess)

end HiResponse

end HiApp.Restful
