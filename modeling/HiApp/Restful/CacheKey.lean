import HiApp.Lib.PrefixCode
import HiApp.Restful.Parameters
import Mathlib.Data.List.Induction

/-!
# Endpoints and cache keys

The endpoint of a request against the documented one, and what a cache key tells
about the request.  The key is read back from its end: a value has no equals sign,
so the last one stands before the last value.
-/

namespace HiApp.Restful

open PrefixCode

namespace URLEncoder

def encodeByte (b : UInt8) : List Char :=
  ['%', hexDigit (b.toNat / 16), hexDigit (b.toNat % 16)]

theorem hexDigit_injOn : ∀ m < 16, ∀ n < 16, hexDigit m = hexDigit n → m = n := by
  decide

theorem hexDigit_ne_equals : ∀ n < 16, hexDigit n ≠ '=' := by
  decide

theorem prefixFree_encodeByte : PrefixFree encodeByte := by
  intro a b x y heq
  simp only [encodeByte, List.cons_append, List.nil_append, List.cons.injEq] at heq
  obtain ⟨-, hhigh, hlow, -⟩ := heq
  have ha := a.toNat_lt
  have hb := b.toNat_lt
  have hdiv := hexDigit_injOn _ (by omega) _ (by omega) hhigh
  have hmod := hexDigit_injOn _ (by omega) _ (by omega) hlow
  apply UInt8.toNat_inj.mp
  omega

theorem prefixFree_utf8EncodeChar : PrefixFree String.utf8EncodeChar := by
  intro a b x y heq
  have hbytes : (String.utf8EncodeChar a).toByteArray ++ x.toByteArray =
      (String.utf8EncodeChar b).toByteArray ++ y.toByteArray := by
    rw [← List.toByteArray_append, ← List.toByteArray_append, heq]
  have hdecode := congrArg (ByteArray.utf8DecodeChar? · 0) hbytes
  simpa [ByteArray.utf8DecodeChar?_utf8EncodeChar_append] using hdecode

theorem encodeChar_cases (c : Char) :
    (c ≠ '%' ∧ c ≠ '+' ∧ c ≠ '=' ∧ encodeChar c = [c]) ∨
    (c = ' ' ∧ encodeChar c = ['+']) ∨
    encodeChar c = (String.utf8EncodeChar c).flatMap encodeByte := by
  by_cases hkept : c.isAlphanum || c = '.' || c = '-' || c = '*' || c = '_'
  · refine .inl ⟨?_, ?_, ?_, if_pos hkept⟩
    all_goals
      rintro rfl
      revert hkept
      decide
  · by_cases hspace : c = ' '
    · exact .inr (.inl ⟨hspace, by rw [encodeChar, if_neg hkept, if_pos hspace]⟩)
    · refine .inr (.inr ?_)
      rw [encodeChar, if_neg hkept, if_neg hspace]
      rfl

theorem head?_flatMap_encodeByte (c : Char) :
    ((String.utf8EncodeChar c).flatMap encodeByte).head? = some '%' := by
  cases hbytes : String.utf8EncodeChar c with
  | nil => exact absurd hbytes String.utf8EncodeChar_ne_nil
  | cons b bytes => rfl

theorem encodeChar_ne_nil (c : Char) : encodeChar c ≠ [] := by
  obtain ⟨-, -, -, h⟩ | ⟨-, h⟩ | h := encodeChar_cases c
  · simp [h]
  · simp [h]
  · intro hnil
    have hhead := head?_flatMap_encodeByte c
    rw [← h, hnil] at hhead
    simp at hhead

/-- The first character of a code word tells the three kinds apart. -/
theorem prefixFree_encodeChar : PrefixFree encodeChar := by
  intro a b x y heq
  have hhead : (encodeChar a).head? = (encodeChar b).head? := by
    have h := congrArg List.head? heq
    rwa [List.head?_append_of_ne_nil _ (encodeChar_ne_nil a),
      List.head?_append_of_ne_nil _ (encodeChar_ne_nil b)] at h
  obtain ⟨ha, ha', -, hca⟩ | ⟨ha, hca⟩ | hca := encodeChar_cases a <;>
    obtain ⟨hb, hb', -, hcb⟩ | ⟨hb, hcb⟩ | hcb := encodeChar_cases b
  case inr.inr.inr.inr =>
    rw [hca, hcb] at heq
    exact PrefixFree.comp prefixFree_encodeByte prefixFree_utf8EncodeChar a b x y heq
  all_goals
    rw [hca, hcb] at hhead
    simp only [head?_flatMap_encodeByte, List.head?_cons] at hhead
    grind

theorem encode_injective : Function.Injective encode := by
  intro s t heq
  have hcodes : s.toList.flatMap encodeChar = t.toList.flatMap encodeChar := by
    simpa [encode] using congrArg String.toList heq
  exact String.toList_injective
    (PrefixFree.flatMap_injective prefixFree_encodeChar encodeChar_ne_nil hcodes)

theorem equals_notMem_encode (s : String) : '=' ∉ (encode s).toList := by
  simp only [encode, String.toList_ofList, List.mem_flatMap, not_exists, not_and]
  intro c _
  obtain ⟨-, -, hne, h⟩ | ⟨-, h⟩ | h := encodeChar_cases c
  · simpa [h] using hne.symm
  · simp [h]
  · rw [h, List.mem_flatMap]
    rintro ⟨b, -, hmem⟩
    have hb := b.toNat_lt
    have hhigh := hexDigit_ne_equals (b.toNat / 16) (by omega)
    have hlow := hexDigit_ne_equals (b.toNat % 16) (by omega)
    simp [encodeByte, hhigh.symm, hlow.symm] at hmem

end URLEncoder

namespace HiRequest

/-! ## The endpoint -/

/-- The endpoint as its documentation has it: a path that begins with a slash takes
the place of the one in the domain's address. -/
def documentedUrl (scheme authority path relativeUrl : String) : String :=
  if relativeUrl.toList.head? = some '/' then
    scheme ++ "://" ++ authority ++ relativeUrl
  else scheme ++ "://" ++ authority ++ "/" ++ path ++ relativeUrl

/-- A key that was kept is the one that would be computed. -/
def KeepsOwnKey (request : HiRequest LinkedHashMap) : Prop :=
  request.cacheStrategyKey ≠ "" →
    { request with cacheStrategyKey := "" }.getCacheKey = .ok request.cacheStrategyKey

/-- The endpoint is `url`, and the cache key begins with it. -/
def ResolvesTo (request : HiRequest LinkedHashMap) (url : String) : Prop :=
  request.endPointUrl = .ok url ∧
    ∃ key, request.getCacheKey = .ok key ∧ url.toList <+: key.toList

theorem indexOf_append_of_notMem {s t : String} {c : Char} (hs : c ∉ s.toList)
    (ht : t.toList.head? = some c) : indexOf (s ++ t) c = some s.toList.length := by
  obtain ⟨rest, hrest⟩ := List.head?_eq_some_iff.mp ht
  rw [indexOf, String.toList_append, hrest]
  generalize s.toList = cs at hs
  induction cs with
  | nil => simp [List.idxOf?_cons]
  | cons d cs ih =>
      have hd : d ≠ c := fun h ↦ hs (by simp [h])
      have hcs := ih fun h ↦ hs (List.mem_cons_of_mem _ h)
      simpa [List.idxOf?_cons, hd] using hcs

/-- Everything from the first slash is cut off the domain's address, so that only the
scheme and its colon are left. -/
theorem endPointUrl_of_slash {M : Type*} {request : HiRequest M}
    {scheme rest relativeUrl : String} (hscheme : '/' ∉ scheme.toList)
    (hdomain : request.domainUrl = some (scheme ++ "://" ++ rest))
    (hrelative : request.relativeUrl = some relativeUrl)
    (hslash : relativeUrl.toList.head? = some '/') :
    request.endPointUrl = .ok (scheme ++ ":" ++ relativeUrl) := by
  have hindex : indexOf (scheme ++ "://" ++ rest) '/' =
      some (scheme ++ ":").toList.length := by
    have hsplit : scheme ++ "://" ++ rest = (scheme ++ ":") ++ ("//" ++ rest) := by
      rw [← String.toList_inj]
      simp
    rw [hsplit]
    exact indexOf_append_of_notMem (by simpa using hscheme) (by simp)
  have htake : String.ofList
      ((scheme ++ "://" ++ rest).toList.take (scheme ++ ":").toList.length) =
        scheme ++ ":" := by
    rw [← String.toList_inj]
    simp [List.take_append, List.take_of_length_le]
  rw [endPointUrl, hrelative]
  simp only [hslash, ne_eq, not_true_eq_false, if_false, hdomain, hindex, htake]

/-! ## The cache key -/

/-- What stands between the endpoint and the parameters. -/
def separator (endUrl : String) : Char :=
  if (indexOf endUrl '?').any (0 < ·) || (indexOf endUrl '&').any (0 < ·) then '&' else '?'

/-- A parameter in the key, with the ampersand after it. -/
def entryText (e : String × String) : List Char :=
  e.1.toList ++ '=' :: (URLEncoder.encode e.2).toList ++ ['&']

theorem toList_buildCacheKey (endUrl : String) (parameters : LinkedHashMap) :
    (buildCacheKey endUrl parameters).toList =
      (endUrl.toList ++ [separator endUrl] ++ parameters.flatMap entryText).dropLast := by
  have hfold : ∀ start : List Char, parameters.foldl
      (fun builder e ↦ builder ++ e.1.toList ++ ['='] ++
        (URLEncoder.encode e.2).toList ++ ['&']) start =
      start ++ parameters.flatMap entryText := by
    induction parameters with
    | nil => simp
    | cons e parameters ih =>
        intro start
        rw [List.foldl_cons, ih]
        simp [entryText]
  simp only [buildCacheKey, hfold, String.toList_ofList, separator]

theorem prefix_buildCacheKey (endUrl : String) (parameters : LinkedHashMap) :
    endUrl.toList <+: (buildCacheKey endUrl parameters).toList := by
  rw [toList_buildCacheKey, List.append_assoc, List.singleton_append,
    List.dropLast_append_cons]
  exact List.prefix_append _ _

/-- The text of an entry without its ampersand, at the end of a key, tells the value
and what stands before. -/
theorem last_entry_inj {x y : List Char} {e f : String × String} (hname : e.1 = f.1)
    (heq : x ++ e.1.toList ++ '=' :: (URLEncoder.encode e.2).toList =
      y ++ f.1.toList ++ '=' :: (URLEncoder.encode f.2).toList) : x = y ∧ e = f := by
  obtain ⟨hleft, hvalue⟩ := append_cons_inj_of_notMem
    (URLEncoder.equals_notMem_encode e.2) (URLEncoder.equals_notMem_encode f.2) heq
  rw [hname] at hleft
  have hvalue' : e.2 = f.2 := URLEncoder.encode_injective (String.toList_injective hvalue)
  exact ⟨List.append_cancel_right hleft, Prod.ext hname hvalue'⟩

/-- From the end, entry by entry, with the names known. -/
theorem flatMap_entryText_inj {a b : LinkedHashMap}
    (hnames : a.map Prod.fst = b.map Prod.fst) {x y : List Char}
    (heq : x ++ a.flatMap entryText = y ++ b.flatMap entryText) : x = y ∧ a = b := by
  induction a using List.reverseRecOn generalizing b with
  | nil =>
      obtain rfl : b = [] := by simpa using hnames.symm
      simpa using heq
  | append_singleton a e ih =>
      induction b using List.reverseRecOn with
      | nil => simp at hnames
      | append_singleton b f _ =>
          simp only [List.map_append, List.map_cons, List.map_nil] at hnames
          obtain ⟨hinit, hlast⟩ := List.append_inj' hnames rfl
          have heq' : (x ++ a.flatMap entryText) ++ e.1.toList ++
              '=' :: (URLEncoder.encode e.2).toList =
                (y ++ b.flatMap entryText) ++ f.1.toList ++
                  '=' :: (URLEncoder.encode f.2).toList := by
            rw [← List.append_left_inj ['&']]
            simpa [entryText] using heq
          obtain ⟨hrest, rfl⟩ := last_entry_inj (List.cons.inj hlast).1 heq'
          obtain ⟨rfl, rfl⟩ := ih hinit hrest
          exact ⟨rfl, rfl⟩

/-- With a parameter in it, it is an ampersand that the key has lost. -/
theorem dropLast_concat_ampersand (start : List Char) {parameters : LinkedHashMap}
    (hne : parameters ≠ []) :
    (start ++ parameters.flatMap entryText).dropLast ++ ['&'] =
      start ++ parameters.flatMap entryText := by
  obtain ⟨init, e, rfl⟩ := parameters.eq_nil_or_concat.resolve_left hne
  have hend : start ++ (init ++ [e]).flatMap entryText =
      (start ++ init.flatMap entryText ++ e.1.toList ++
        '=' :: (URLEncoder.encode e.2).toList) ++ ['&'] := by
    simp [entryText]
  rw [List.concat_eq_append, hend, List.dropLast_concat]

theorem buildCacheKey_inj {u v : String} {a b : LinkedHashMap}
    (hnames : a.map Prod.fst = b.map Prod.fst)
    (heq : buildCacheKey u a = buildCacheKey v b) : u = v ∧ a = b := by
  have hkeys := congrArg String.toList heq
  rw [toList_buildCacheKey, toList_buildCacheKey] at hkeys
  by_cases ha : a = []
  · obtain rfl : b = [] := by simpa [ha] using hnames.symm
    simp only [ha, List.flatMap_nil, List.append_nil, List.dropLast_concat] at hkeys
    exact ⟨String.toList_injective hkeys, ha⟩
  · have hb : b ≠ [] := by
      rintro rfl
      simp [ha] at hnames
    have htexts := congrArg (· ++ ['&']) hkeys
    simp only [dropLast_concat_ampersand _ ha, dropLast_concat_ampersand _ hb] at htexts
    obtain ⟨hurl, hab⟩ := flatMap_entryText_inj hnames htexts
    obtain ⟨hu, -⟩ := List.append_inj' hurl rfl
    exact ⟨String.toList_injective hu, hab⟩

/-- A key that was not kept is built from the endpoint. -/
theorem getCacheKey_eq_ok_iff {request : HiRequest LinkedHashMap} {key : String}
    {parameters : LinkedHashMap} (hempty : request.cacheStrategyKey = "")
    (hparams : request.parameters = some parameters) :
    request.getCacheKey = .ok key ↔
      ∃ url, request.endPointUrl = .ok url ∧ buildCacheKey url parameters = key := by
  simp only [getCacheKey, hempty, ne_eq, not_true_eq_false, if_false, hparams]
  cases request.endPointUrl <;> simp

theorem exists_getCacheKey_of_empty {request : HiRequest LinkedHashMap} {url : String}
    (hempty : request.cacheStrategyKey = "") (hurl : request.endPointUrl = .ok url) :
    ∃ key, request.getCacheKey = .ok key ∧ url.toList <+: key.toList := by
  cases hparams : request.parameters with
  | none => exact ⟨url, by simp [getCacheKey, hempty, hurl, hparams], List.prefix_rfl⟩
  | some parameters =>
      exact ⟨_, (getCacheKey_eq_ok_iff hempty hparams).mpr ⟨url, hurl, rfl⟩,
        prefix_buildCacheKey url parameters⟩

theorem exists_getCacheKey {request : HiRequest LinkedHashMap} {url : String}
    (hkept : request.KeepsOwnKey) (hurl : request.endPointUrl = .ok url) :
    ∃ key, request.getCacheKey = .ok key ∧ url.toList <+: key.toList := by
  by_cases hempty : request.cacheStrategyKey = ""
  · exact exists_getCacheKey_of_empty hempty hurl
  · obtain ⟨key, hkey, hprefix⟩ :=
      @exists_getCacheKey_of_empty { request with cacheStrategyKey := "" } url rfl hurl
    rw [hkept hempty] at hkey
    rw [← Except.ok.inj hkey] at hprefix
    exact ⟨request.cacheStrategyKey, if_pos hempty, hprefix⟩

/-- The endpoint is the documented one exactly for the paths that do not begin with
a slash. -/
theorem resolvesTo_documentedUrl_iff {request : HiRequest LinkedHashMap}
    {scheme authority path relativeUrl : String} (hscheme : '/' ∉ scheme.toList)
    (hdomain : request.domainUrl = some (scheme ++ "://" ++ authority ++ "/" ++ path))
    (hrelative : request.relativeUrl = some relativeUrl) (hkept : request.KeepsOwnKey) :
    request.ResolvesTo (documentedUrl scheme authority path relativeUrl) ↔
      relativeUrl.toList.head? ≠ some '/' := by
  constructor
  · rintro ⟨hurl, -⟩ hslash
    have hdomain' : request.domainUrl =
        some (scheme ++ "://" ++ (authority ++ "/" ++ path)) := by
      rw [hdomain, Option.some.injEq, ← String.toList_inj]
      simp
    rw [endPointUrl_of_slash hscheme hdomain' hrelative hslash, documentedUrl,
      if_pos hslash] at hurl
    have hlength := congrArg (List.length ∘ String.toList) (Except.ok.inj hurl)
    simp at hlength
    omega
  · intro hslash
    have hurl : request.endPointUrl =
        .ok (documentedUrl scheme authority path relativeUrl) := by
      rw [endPointUrl, hrelative]
      simp only [if_pos hslash, hdomain, documentedUrl, if_neg hslash, Option.getD_some]
    exact ⟨hurl, exists_getCacheKey hkept hurl⟩

/-- The example of the documentation: it has `https://api.devio.org/v2/user/login`. -/
theorem exists_endPointUrl_without_authority :
    ∃ request : HiRequest LinkedHashMap,
      request.domainUrl = some "https://api.devio.org/v1/" ∧
      request.relativeUrl = some "/v2/user/login" ∧ request.cacheStrategyKey = "" ∧
      request.endPointUrl = .ok "https:/v2/user/login" ∧
      ¬ request.ResolvesTo
        (documentedUrl "https" "api.devio.org" "v1/" "/v2/user/login") := by
  refine ⟨{ domainUrl := some "https://api.devio.org/v1/"
            relativeUrl := some "/v2/user/login" }, rfl, rfl, rfl, ?_, ?_⟩
  · decide
  · rintro ⟨hurl, -⟩
    revert hurl
    decide

theorem resolvesTo_documentedUrl_user_login :
    HiRequest.ResolvesTo
      { domainUrl := some "https://api.devio.org/v1/", relativeUrl := some "user/login" }
      (documentedUrl "https" "api.devio.org" "v1/" "user/login") :=
  (resolvesTo_documentedUrl_iff (by decide) (by decide) rfl
    (fun h ↦ absurd rfl h)).mpr (by decide)

end HiRequest

namespace MethodParser

/-- The request that `newRequest` makes, with the maps as the call leaves them. -/
def built (parser : MethodParser) (method : Method) (args : List Argument) :
    Except Exception (HiRequest LinkedHashMap) :=
  match parser.newRequest () method args with
  | (_, .error e) => .error e
  | (parser, .ok request) =>
      .ok (request.map (fun _ ↦ parser.headers) fun _ ↦ parser.parameters)

theorem built_of_nodup {p : MethodParser} {method : Method} {args : List Argument}
    {request : HiRequest LinkedHashMap} (hbuilt : p.built method args = .ok request)
    (hnodup : method.filedNames.Nodup) :
    request.cacheStrategyKey = "" ∧
      request.parameters = some (method.filedParameters args) ∧
      (method.filedParameters args).map Prod.fst = method.filedNames := by
  unfold built at hbuilt
  cases hcall : p.parseMethodParameters method args with
  | mk q thrown =>
      cases thrown with
      | some e => simp [newRequest, hcall] at hbuilt
      | none =>
          obtain ⟨made, hmade, -, hparams, -, -, hkey⟩ := newRequest_of_ok hcall ()
          rw [hmade] at hbuilt
          rw [← Except.ok.inj hbuilt]
          refine ⟨hkey, ?_, Method.map_fst_valuesOf _ (parseMethodParameters_of_ok hcall).1⟩
          rw [HiRequest.map, hparams, Option.map_some, parameters_of_nodup hcall hnodup]

/-- Requests with the same fields in the same order have different keys unless their
endpoints and the values of their fields are the same. -/
theorem getCacheKey_separates {p q : MethodParser} {method method' : Method}
    {args args' : List Argument} {request request' : HiRequest LinkedHashMap} {key : String}
    (hbuilt : p.built method args = .ok request)
    (hbuilt' : q.built method' args' = .ok request')
    (hnames : method.filedNames = method'.filedNames) (hnodup : method.filedNames.Nodup)
    (hkey : request.getCacheKey = .ok key) (hkey' : request'.getCacheKey = .ok key) :
    (∃ url, request.endPointUrl = .ok url ∧ request'.endPointUrl = .ok url) ∧
      request.parameters = request'.parameters ∧
      method.filedParameters args = method'.filedParameters args' := by
  obtain ⟨hempty, hparams, hfst⟩ := built_of_nodup hbuilt hnodup
  obtain ⟨hempty', hparams', hfst'⟩ := built_of_nodup hbuilt' (hnames ▸ hnodup)
  obtain ⟨url, hurl, hbuild⟩ := (HiRequest.getCacheKey_eq_ok_iff hempty hparams).mp hkey
  obtain ⟨url', hurl', hbuild'⟩ :=
    (HiRequest.getCacheKey_eq_ok_iff hempty' hparams').mp hkey'
  have hmaps : (method.filedParameters args).map Prod.fst =
      (method'.filedParameters args').map Prod.fst := by
    rw [hfst, hfst', hnames]
  obtain ⟨rfl, hvalues⟩ := HiRequest.buildCacheKey_inj hmaps (hbuild.trans hbuild'.symm)
  exact ⟨⟨url, hurl, hurl'⟩, by rw [hparams, hparams', hvalues], hvalues⟩

/-- `HomeApi.queryTabCategoryList`. -/
def queryTabCategoryList : Method where
  name := "queryTabCategoryList"
  annotations := [.get "home/\x7bcategoryId\x7d"]
  parameterAnnotations :=
    [[.cacheStrategy CacheStrategy.netOnly], [.path "categoryId"], [.filed "pageIndex"],
      [.filed "pageSize"]]
  genericReturnType := .parameterized "HiCall" [.cls "HomeModel"]

def tabParser : MethodParser where
  domainUrl := some "https://api.devio.org/as/"
  relativeUrl := "home/\x7bcategoryId\x7d"
  httpMethod := HttpMethod.get

/-- Two calls of one method, the second on a parser that has seen another call. -/
theorem getCacheKey_separates_queryTabCategoryList :
    ∃ request request',
      tabParser.built queryTabCategoryList [.int 1, .string "3", .int 1, .int 10] =
        .ok request ∧
      { tabParser with replaceRelativeUrl := some "home/8" }.built queryTabCategoryList
        [.int 0, .string "3", .int 1, .int 10] = .ok request' ∧
      request.parameters = request'.parameters := by
  obtain ⟨request, hbuilt, hkey⟩ : ∃ request,
      tabParser.built queryTabCategoryList [.int 1, .string "3", .int 1, .int 10] =
        .ok request ∧
      request.getCacheKey =
        .ok "https://api.devio.org/as/home/3?pageIndex=1&pageSize=10" :=
    ⟨_, rfl, by decide⟩
  obtain ⟨request', hbuilt', hkey'⟩ : ∃ request,
      { tabParser with replaceRelativeUrl := some "home/8" }.built queryTabCategoryList
        [.int 0, .string "3", .int 1, .int 10] = .ok request ∧
      request.getCacheKey =
        .ok "https://api.devio.org/as/home/3?pageIndex=1&pageSize=10" :=
    ⟨_, rfl, by decide⟩
  exact ⟨request, request', hbuilt, hbuilt',
    (getCacheKey_separates hbuilt hbuilt' rfl (by decide) hkey hkey').2.1⟩

end MethodParser

end HiApp.Restful
