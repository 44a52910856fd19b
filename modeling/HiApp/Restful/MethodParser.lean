import HiApp.Lib.Loop
import HiApp.Restful.Request

/-!
# Parsing an interface method

`MethodParser` reads the annotations of a method once, and those of its
parameters, with the arguments, at every call.
-/

namespace HiApp.Restful

inductive MethodAnnotation where
  | get (value : String)
  | post (value : String) (formPost : Bool)
  | put (value : String) (formPost : Bool)
  | delete (value : String)
  | headers (value : List String)
  | baseUrl (value : String)
  | cacheStrategy (value : ℤ)
  | other (javaClass : String)
  deriving DecidableEq

inductive ParameterAnnotation where
  | filed (value : String)
  | path (value : String)
  | cacheStrategy (value : ℤ)
  | other (javaClass : String)
  deriving DecidableEq

structure Method where
  name : String
  annotations : List MethodAnnotation
  parameterAnnotations : List (List ParameterAnnotation) := []
  genericReturnType : JavaType

/-- An argument of a call: a string, a boxed `Int`, a value of another basic type
or any other object, the last two with what `toString` gives. -/
inductive Argument where
  | string (value : String)
  | int (value : ℤ)
  | basic (text : String)
  | object (text : String)
  deriving DecidableEq

namespace Argument

def toString : Argument → String
  | .string value => value
  | .int value => ToString.toString value
  | .basic text | .object text => text

def isPrimitive : Argument → Bool
  | .string _ | .int _ | .basic _ => true
  | .object _ => false

end Argument

/-! ## Texts -/

/-- `Char.isWhitespace` of Kotlin. -/
def isWhitespace (c : Char) : Bool :=
  let n := c.toNat
  decide (9 ≤ n ∧ n ≤ 13) || decide (28 ≤ n ∧ n ≤ 32) || decide (n = 0xA0) ||
    decide (n = 0x1680) || decide (0x2000 ≤ n ∧ n ≤ 0x200A) || decide (n = 0x2028) ||
    decide (n = 0x2029) || decide (n = 0x202F) || decide (n = 0x205F) ||
    decide (n = 0x3000)

def trim (s : List Char) : List Char :=
  ((s.dropWhile isWhitespace).reverse.dropWhile isWhitespace).reverse

/-- Replace the occurrences of `old` from left to right; `skip` characters are
still part of the last one. -/
def replaceFrom (old new : List Char) : ℕ → List Char → List Char
  | _, [] => []
  | skip + 1, _ :: cs => replaceFrom old new skip cs
  | 0, c :: cs =>
      if old.isPrefixOf (c :: cs) then new ++ replaceFrom old new (old.length - 1) cs
      else c :: replaceFrom old new 0 cs

/-- `String.replace`, of a text that is not empty. -/
def replace (s old new : String) : String :=
  String.ofList (replaceFrom old.toList new.toList 0 s.toList)

/-! ## The parser -/

namespace HttpMethod

def get : ℤ := 0

def post : ℤ := 1

def put : ℤ := 2

def delete : ℤ := 3

end HttpMethod

structure MethodParser where
  replaceRelativeUrl : Option String := none
  cacheStrategy : ℤ := CacheStrategy.netOnly
  domainUrl : Option String := none
  formPost : Bool := true
  httpMethod : ℤ := -1
  relativeUrl : String := ""
  returnType : Option JavaType := none
  headers : LinkedHashMap := []
  parameters : LinkedHashMap := []

namespace MethodParser

def parseHeader (parser : MethodParser) (header : String) :
    MethodParser × Option Exception :=
  match indexOf header ':' with
  | none | some 0 => (parser, some (.illegalState
      ("@headers value must be in the form [name:value] ,but found [" ++ header ++ "]")))
  | some colon =>
      let name := String.ofList (header.toList.take colon)
      let value := String.ofList (trim (header.toList.drop (colon + 1)))
      ({ parser with headers := parser.headers.put name value }, none)

def parseMethodAnnotation (parser : MethodParser) :
    MethodAnnotation → MethodParser × Option Exception
  | .get value =>
      ({ parser with relativeUrl := value, httpMethod := HttpMethod.get }, none)
  | .post value formPost =>
      ({ parser with
        relativeUrl := value
        httpMethod := HttpMethod.post
        formPost := formPost }, none)
  | .put value formPost =>
      ({ parser with
        formPost := formPost
        httpMethod := HttpMethod.put
        relativeUrl := value }, none)
  | .delete value =>
      ({ parser with httpMethod := HttpMethod.delete, relativeUrl := value }, none)
  | .headers value => forEach parseHeader parser value
  | .baseUrl value => ({ parser with domainUrl := some value }, none)
  | .cacheStrategy value => ({ parser with cacheStrategy := value }, none)
  | .other javaClass =>
      (parser, some (.illegalState ("cannot handle method annotation:" ++ javaClass)))

def parseMethodAnnotations (parser : MethodParser) (baseUrl : String)
    (method : Method) : Except Exception MethodParser :=
  match forEach parseMethodAnnotation parser method.annotations with
  | (_, some e) => .error e
  | (parser, none) =>
      if parser.httpMethod = HttpMethod.get ∨ parser.httpMethod = HttpMethod.post ∨
          parser.httpMethod = HttpMethod.put ∨ parser.httpMethod = HttpMethod.delete then
        .ok { parser with domainUrl := some (parser.domainUrl.getD baseUrl) }
      else .error (.illegalArgument
        ("method " ++ method.name ++ " must has one of GET,POST,PUT,DELETE "))

def validateGenericType : JavaType → Bool
  | .genericArray genericComponentType => validateGenericType genericComponentType
  | .typeVariable | .wildcard => false
  | .cls _ | .parameterized _ _ => true

/-- `parseMethodReturnType`.  The text of the third exception is a format without
its argument. -/
def parseMethodReturnType (parser : MethodParser) (method : Method) :
    Except Exception MethodParser :=
  let notHiCall := .error (.illegalState
    ("method " ++ method.name ++ " must be type of HiCall.class"))
  match method.genericReturnType with
  | .parameterized rawType actualTypeArguments =>
      if rawType ≠ "HiCall" then notHiCall
      else
        match actualTypeArguments with
        | [argument] =>
            if validateGenericType argument then
              .ok { parser with returnType := some argument }
            else .error .missingFormatArgument
        | _ => .error (.illegalArgument
            "method %s can only has one generic return type")
  | .cls name =>
      if name ≠ "HiCall" then notHiCall
      else .error (.illegalState
        ("method " ++ method.name ++ " must has one gerneric return type"))
  | .genericArray _ | .typeVariable | .wildcard => notHiCall

/-- `MethodParser.parse`, the constructor. -/
def parse (baseUrl : String) (method : Method) : Except Exception MethodParser :=
  match parseMethodAnnotations {} baseUrl method with
  | .error e => .error e
  | .ok parser => parser.parseMethodReturnType method

/-- One turn of the loop of `parseMethodParameters`, for the argument at `index`
and its annotations. -/
def parseParameter (parser : MethodParser)
    (parameter : (List ParameterAnnotation × Argument) × ℕ) :
    MethodParser × Option Exception :=
  let ((annotations, value), index) := parameter
  if 1 < annotations.length then
    (parser, some (.illegalArgument
      ("filed can only has one annotation :index =" ++ ToString.toString index)))
  else if !value.isPrimitive then
    (parser, some (.illegalArgument
      ("8 basic types are supported for now,index=" ++ ToString.toString index)))
  else
    match annotations with
    | [] => (parser, some .indexOutOfBounds)
    | .filed key :: _ =>
        ({ parser with parameters := parser.parameters.put key value.toString }, none)
    | .path replaceName :: _ =>
        ({ parser with replaceRelativeUrl := some (replace parser.relativeUrl
            ("\x7b" ++ replaceName ++ "\x7d") value.toString) }, none)
    | .cacheStrategy _ :: _ =>
        match value with
        | .int cacheStrategy => ({ parser with cacheStrategy := cacheStrategy }, none)
        | _ => (parser, some .classCast)
    | .other javaClass :: _ =>
        (parser, some (.illegalState
          ("cannot handle parameter annotation :" ++ javaClass)))

/-- `parseMethodParameters`; the parameters of the last call are cleared first. -/
def parseMethodParameters (parser : MethodParser) (method : Method)
    (args : List Argument) : MethodParser × Option Exception :=
  let parser := { parser with parameters := [] }
  if method.parameterAnnotations.length ≠ args.length then
    (parser, some (.illegalArgument ("arguments annotations count " ++
      ToString.toString method.parameterAnnotations.length ++
      " don't match expect count " ++ ToString.toString args.length)))
  else forEach parseParameter parser (method.parameterAnnotations.zip args).zipIdx

/-- `newRequest`.  The request refers to the maps of the parser, here `maps`. -/
def newRequest {M : Type*} (parser : MethodParser) (maps : M) (method : Method)
    (args : List Argument) : MethodParser × Except Exception (HiRequest M) :=
  match parser.parseMethodParameters method args with
  | (parser, some e) => (parser, .error e)
  | (parser, none) => (parser, .ok
      { domainUrl := parser.domainUrl
        returnType := parser.returnType
        relativeUrl := some (parser.replaceRelativeUrl.getD parser.relativeUrl)
        parameters := some maps
        headers := some maps
        httpMethod := parser.httpMethod
        formPost := parser.formPost
        cacheStrategy := parser.cacheStrategy })

/-! ## What a call of a method leaves behind -/

theorem parseMethodAnnotation_replaceRelativeUrl (parser : MethodParser)
    (first : MethodAnnotation) :
    (parser.parseMethodAnnotation first).1.replaceRelativeUrl =
      parser.replaceRelativeUrl := by
  cases first with
  | headers value =>
      refine forEach.invariant_always
        (I := fun p : MethodParser ↦ p.replaceRelativeUrl = parser.replaceRelativeUrl)
        ?_ rfl
      intro p header _ hp
      unfold parseHeader
      split <;> exact hp
  | get _ | post _ _ | put _ _ | delete _ | baseUrl _ | cacheStrategy _ | other _ => rfl

theorem parse_replaceRelativeUrl {baseUrl : String} {method : Method}
    {parser : MethodParser} (hparse : parse baseUrl method = .ok parser) :
    parser.replaceRelativeUrl = none := by
  have hloop : (forEach parseMethodAnnotation {} method.annotations).1.replaceRelativeUrl =
      none := by
    refine forEach.invariant_always
      (I := fun p : MethodParser ↦ p.replaceRelativeUrl = none) ?_ rfl
    intro p first _ hp
    rw [parseMethodAnnotation_replaceRelativeUrl, hp]
  have hannotations : ∀ p, parseMethodAnnotations {} baseUrl method = .ok p →
      p.replaceRelativeUrl = none := by
    intro p hp
    unfold parseMethodAnnotations at hp
    split at hp
    · simp at hp
    · rename_i p' hp'
      split at hp
      · rw [hp'] at hloop
        rw [← Except.ok.inj hp]
        exact hloop
      · simp at hp
  unfold parse at hparse
  split at hparse
  · simp at hparse
  rename_i p hp
  unfold parseMethodReturnType at hparse
  have hnone := hannotations p hp
  split at hparse
  · split at hparse
    · simp at hparse
    split at hparse
    · split at hparse
      · rw [← Except.ok.inj hparse]
        exact hnone
      · simp at hparse
    · simp at hparse
  · split at hparse <;> simp at hparse
  all_goals simp at hparse

/-- Two parsers of one method in the loop over the parameters: what `q` has is due
to this call alone, and `p₀` is where `p` began. -/
structure SameCall (p₀ p q : MethodParser) : Prop where
  parameters : p.parameters = q.parameters
  relativeUrl : p.relativeUrl = q.relativeUrl
  replaceRelativeUrl : p.replaceRelativeUrl =
    q.replaceRelativeUrl.or p₀.replaceRelativeUrl
  kept : p.relativeUrl = p₀.relativeUrl ∧ p.headers = p₀.headers ∧
    p.domainUrl = p₀.domainUrl

theorem SameCall.parseParameter {p₀ p q : MethodParser} (h : SameCall p₀ p q)
    (parameter : (List ParameterAnnotation × Argument) × ℕ) :
    SameCall p₀ (p.parseParameter parameter).1 (q.parseParameter parameter).1 ∧
      (p.parseParameter parameter).2 = (q.parseParameter parameter).2 := by
  obtain ⟨⟨annotations, value⟩, index⟩ := parameter
  simp only [MethodParser.parseParameter]
  split
  · exact ⟨h, rfl⟩
  split
  · exact ⟨h, rfl⟩
  rcases annotations with _ | ⟨first, rest⟩
  · exact ⟨h, rfl⟩
  cases first with
  | filed key =>
      refine ⟨⟨?_, h.relativeUrl, h.replaceRelativeUrl, h.kept⟩, rfl⟩
      simp [h.parameters]
  | path replaceName =>
      refine ⟨⟨h.parameters, h.relativeUrl, ?_, h.kept⟩, rfl⟩
      simp [h.relativeUrl]
  | cacheStrategy strategy =>
      cases value with
      | int n =>
          exact ⟨⟨h.parameters, h.relativeUrl, h.replaceRelativeUrl, h.kept⟩, rfl⟩
      | string s | basic s | object s => exact ⟨h, rfl⟩
  | other javaClass => exact ⟨h, rfl⟩

/-- The parameters and the exception of a call do not depend on earlier calls. -/
theorem sameCall_parseMethodParameters {p q : MethodParser}
    (hurl : p.relativeUrl = q.relativeUrl) (hnone : q.replaceRelativeUrl = none)
    (method : Method) (args : List Argument) :
    SameCall p (p.parseMethodParameters method args).1
        (q.parseMethodParameters method args).1 ∧
      (p.parseMethodParameters method args).2 =
        (q.parseMethodParameters method args).2 := by
  have hcleared : SameCall p { p with parameters := [] } { q with parameters := [] } :=
    ⟨rfl, hurl, by simp [hnone], rfl, rfl, rfl⟩
  unfold parseMethodParameters
  split
  · exact ⟨hcleared, rfl⟩
  · exact forEach.related (fun u v x huv ↦ huv.parseParameter x) hcleared

theorem parseParameter_cases (p : MethodParser)
    (parameter : (List ParameterAnnotation × Argument) × ℕ) :
    (∃ e, p.parseParameter parameter = (p, some e)) ∨
    (∃ key, parameter.1.1.head? = some (.filed key) ∧ p.parseParameter parameter =
      ({ p with parameters := p.parameters.put key parameter.1.2.toString }, none)) ∨
    (∃ name, parameter.1.1.head? = some (.path name) ∧ p.parseParameter parameter =
      ({ p with replaceRelativeUrl := some (replace p.relativeUrl
        ("\x7b" ++ name ++ "\x7d") parameter.1.2.toString) }, none)) ∨
    ∃ strategy n, parameter.1.1.head? = some (.cacheStrategy strategy) ∧
      p.parseParameter parameter = ({ p with cacheStrategy := n }, none) := by
  obtain ⟨⟨annotations, value⟩, index⟩ := parameter
  simp only [parseParameter]
  split
  · exact .inl ⟨_, rfl⟩
  split
  · exact .inl ⟨_, rfl⟩
  rcases annotations with _ | ⟨first, rest⟩
  · exact .inl ⟨_, rfl⟩
  cases first with
  | filed key => exact .inr (.inl ⟨key, rfl, rfl⟩)
  | path name => exact .inr (.inr (.inl ⟨name, rfl, rfl⟩))
  | cacheStrategy strategy =>
      cases value with
      | int n => exact .inr (.inr (.inr ⟨strategy, n, rfl, rfl⟩))
      | string s | basic s | object s => exact .inl ⟨_, rfl⟩
  | other javaClass => exact .inl ⟨_, rfl⟩

/-- Some parameter of the method stands for a part of its path. -/
def HasPath (method : Method) : Prop :=
  ∃ annotations ∈ method.parameterAnnotations, ∃ name,
    annotations.head? = some (.path name)

theorem hasPath_of_replaceRelativeUrl {p : MethodParser} {method : Method}
    (hp : p.replaceRelativeUrl.isSome → HasPath method) (args : List Argument) :
    (p.parseMethodParameters method args).1.replaceRelativeUrl.isSome →
      HasPath method := by
  unfold parseMethodParameters
  split
  · exact hp
  · refine forEach.invariant_always
      (I := fun q : MethodParser ↦ q.replaceRelativeUrl.isSome → HasPath method) ?_ hp
    intro q parameter hmem hq
    have hann : parameter.1.1 ∈ method.parameterAnnotations :=
      (List.of_mem_zip (List.fst_mem_of_mem_zipIdx hmem)).1
    obtain ⟨e, hturn⟩ | ⟨key, -, hturn⟩ | ⟨name, hhead, hturn⟩ |
      ⟨strategy, n, -, hturn⟩ := parseParameter_cases q parameter
    · rw [hturn]
      exact hq
    · rw [hturn]
      exact hq
    · exact fun _ ↦ ⟨parameter.1.1, hann, name, hhead⟩
    · rw [hturn]
      exact hq

theorem replaceRelativeUrl_isSome {p q : MethodParser} {method : Method}
    {args : List Argument} (hpath : HasPath method)
    (hcall : p.parseMethodParameters method args = (q, none)) :
    q.replaceRelativeUrl.isSome := by
  obtain ⟨annotations, hann, name, hhead⟩ := hpath
  unfold parseMethodParameters at hcall
  split at hcall
  · simp at hcall
  rename_i hlength
  obtain ⟨i, hi, rfl⟩ := List.getElem_of_mem hann
  have hi' : i < (method.parameterAnnotations.zip args).length := by
    rw [List.length_zip]
    omega
  have hmem : ((method.parameterAnnotations.zip args)[i], i) ∈
      (method.parameterAnnotations.zip args).zipIdx :=
    List.mem_zipIdx_iff_getElem?.mpr (List.getElem?_eq_getElem hi')
  refine forEach.achieves
    (Q := fun (parameter : (List ParameterAnnotation × Argument) × ℕ)
      (q : MethodParser) ↦ parameter.1.1.head? = some (.path name) →
        q.replaceRelativeUrl.isSome) ?_ ?_ hcall _ hmem (by simpa using hhead)
  · intro u parameter v _ hturn hpath
    obtain ⟨e, h⟩ | ⟨key, h, -⟩ | ⟨name', -, h⟩ | ⟨strategy, n, h, -⟩ :=
      parseParameter_cases u parameter
    · simp [h] at hturn
    · simp [h] at hpath
    · rw [h, Prod.mk.injEq] at hturn
      simp [← hturn.1]
    · simp [h] at hpath
  · intro u parameter v other hu hturn hpath
    obtain ⟨e, h⟩ | ⟨key, -, h⟩ | ⟨name', -, h⟩ | ⟨strategy, n, -, h⟩ :=
      parseParameter_cases u parameter
    · simp [h] at hturn
    all_goals
      rw [h, Prod.mk.injEq] at hturn
      rw [← hturn.1]
    · exact hu hpath
    · rfl
    · exact hu hpath

def requestUrl (p : MethodParser) : String := p.replaceRelativeUrl.getD p.relativeUrl

/-- A call of a method on a parser that has seen other calls leaves what it leaves
on a new one, apart from the headers. -/
theorem parseMethodParameters_eq (method : Method) {p q : MethodParser}
    (hurl : p.relativeUrl = q.relativeUrl) (hdomain : p.domainUrl = q.domainUrl)
    (hpath : p.replaceRelativeUrl.isSome → HasPath method)
    (hnone : q.replaceRelativeUrl = none) (args : List Argument) :
    ∃ p' q' e, p.parseMethodParameters method args = (p', e) ∧
      q.parseMethodParameters method args = (q', e) ∧
      p'.parameters = q'.parameters ∧ p'.headers = p.headers ∧
      p'.relativeUrl = q.relativeUrl ∧ p'.domainUrl = q.domainUrl ∧
      q'.headers = q.headers ∧ q'.domainUrl = q.domainUrl ∧
      (e = none → p'.requestUrl = q'.requestUrl) := by
  obtain ⟨hsame, he⟩ := sameCall_parseMethodParameters hurl hnone method args
  obtain ⟨hself, -⟩ := sameCall_parseMethodParameters rfl hnone method args
  rcases hp : p.parseMethodParameters method args with ⟨p', e⟩
  rcases hq : q.parseMethodParameters method args with ⟨q', e'⟩
  rw [hp, hq] at hsame he
  rw [hq] at hself
  obtain rfl : e = e' := he
  refine ⟨p', q', e, rfl, rfl, hsame.parameters, hsame.kept.2.1,
    hsame.kept.1.trans hurl, hsame.kept.2.2.trans hdomain, hself.kept.2.1,
    hself.kept.2.2, ?_⟩
  rintro rfl
  unfold requestUrl
  rw [hsame.relativeUrl, hsame.replaceRelativeUrl]
  cases hreplaced : q'.replaceRelativeUrl with
  | some url => rfl
  | none =>
      -- nothing was replaced now, so the method has no path and nothing was before
      have hold : p.replaceRelativeUrl = none := by
        by_contra hsome
        have hnow := replaceRelativeUrl_isSome
          (hpath (Option.isSome_iff_ne_none.mpr hsome)) hq
        simp [hreplaced] at hnow
      rw [hold]
      rfl

theorem newRequest_of_ok {M : Type*} {p p' : MethodParser} {method : Method}
    {args : List Argument} (hp : p.parseMethodParameters method args = (p', none))
    (maps : M) :
    ∃ request, p.newRequest maps method args = (p', .ok request) ∧
      request.headers = some maps ∧ request.parameters = some maps ∧
      request.relativeUrl = some p'.requestUrl ∧ request.domainUrl = p'.domainUrl ∧
      request.cacheStrategyKey = "" := by
  simp [newRequest, hp, requestUrl]

end MethodParser

end HiApp.Restful
