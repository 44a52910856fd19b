import HiApp.Lib.Replacement
import HiApp.Restful.Parameters

/-!
# Path parameters

Every path parameter of a call is replaced in the template itself, so that the last
one is the only one that the address of the request has lost.
-/

namespace HiApp.Restful

def BraceFree (s : String) : Prop := '\x7b' ∉ s.toList ∧ '\x7d' ∉ s.toList

instance (s : String) : Decidable (BraceFree s) :=
  inferInstanceAs (Decidable ('\x7b' ∉ s.toList ∧ '\x7d' ∉ s.toList))

/-- What stands for a path parameter in a template. -/
def placeholder (name : String) : List Char := ("\x7b" ++ name ++ "\x7d").toList

theorem placeholder_eq (name : String) :
    placeholder name = '\x7b' :: (name.toList ++ ['\x7d']) := by
  simp [placeholder]

/-! ## Replacing -/

theorem replaceFrom_skip (old new : List Char) (k : ℕ) (s : List Char) :
    replaceFrom old new k s = replaceFrom old new 0 (s.drop k) := by
  induction s generalizing k with
  | nil => cases k <;> rfl
  | cons c s ih =>
      cases k with
      | zero => rfl
      | succ k =>
          rw [replaceFrom, ih]
          rfl

theorem replaced_replaceFrom {old : List Char} (hold : old ≠ []) (new s : List Char) :
    Replaced old new s (replaceFrom old new 0 s) := by
  induction hn : s.length using Nat.strongRecOn generalizing s with
  | ind n ih =>
      cases s with
      | nil => exact .nil
      | cons c s =>
          rw [replaceFrom]
          by_cases hprefix : old <+: c :: s
          · obtain ⟨rest, hrest⟩ := hprefix
            have hdrop : s.drop (old.length - 1) = rest := by
              obtain ⟨d, old, rfl⟩ := List.exists_cons_of_ne_nil hold
              obtain ⟨-, rfl⟩ := List.cons.inj hrest
              simp
            have hshort : rest.length < n := by
              have hlength := congrArg List.length hrest
              have hpos := List.length_pos_of_ne_nil hold
              simp only [List.length_append] at hlength
              omega
            rw [if_pos (List.isPrefixOf_iff_prefix.mpr ⟨rest, hrest⟩), replaceFrom_skip,
              hdrop, ← hrest]
            exact (ih _ hshort rest rfl).replace
          · rw [if_neg (by rwa [List.isPrefixOf_iff_prefix])]
            exact .keep hprefix (ih s.length (by simp [← hn]) s rfl)

theorem placeholder_ne_nil (name : String) : placeholder name ≠ [] := by
  simp [placeholder_eq]

theorem replaced_substitute (template : String) (e : String × String) :
    Replaced (placeholder e.1) e.2.toList template.toList
      (MethodParser.substitute template e).toList := by
  have h := replaced_replaceFrom (placeholder_ne_nil e.1) e.2.toList template.toList
  simpa [MethodParser.substitute, replace, placeholder] using h

theorem substitute_eq_of_replaced {s t : String} {e : String × String}
    (h : Replaced (placeholder e.1) e.2.toList s.toList t.toList) :
    MethodParser.substitute s e = t :=
  String.toList_injective
    ((replaced_substitute s e).unique (placeholder_ne_nil e.1) h)

theorem substitute_of_not_occurs {template : String} {e : String × String}
    (h : ¬ placeholder e.1 <:+: template.toList) :
    MethodParser.substitute template e = template :=
  String.toList_injective ((replaced_substitute template e).eq_of_not_occurs h)

/-- A placeholder in the result was made from one of the template. -/
theorem exists_of_placeholder_infix {template name : String} {e : String × String}
    (hvalue : BraceFree e.2)
    (h : placeholder name <:+: (MethodParser.substitute template e).toList) :
    ∃ y : String, y ≠ e.1 ∧ placeholder y <:+: template.toList ∧
      MethodParser.substitute y e = name := by
  obtain ⟨a, z, hresult⟩ := h
  have hopen : (MethodParser.substitute template e).toList =
      a ++ '\x7b' :: (name.toList ++ '\x7d' :: z) := by
    simp [← hresult, placeholder_eq]
  have hreplaced := replaced_substitute template e
  rw [hopen] at hreplaced
  obtain ⟨x, w, hx, -, hw, hno⟩ := hreplaced.split hvalue.1
  obtain ⟨y, b, rfl, hy, -, -⟩ := hw.split hvalue.2
  refine ⟨String.ofList y, ?_, ⟨x, b, ?_⟩, substitute_eq_of_replaced (by simpa using hy)⟩
  · intro hname
    exact hno ⟨b, by simp [placeholder_eq, ← hname]⟩
  · rw [hx, placeholder_eq]
    simp

/-- The brace that opens a placeholder of another name does not open the parameter's own. -/
theorem not_prefix_of_braceFree {y : String} {b : List Char} {e : String × String}
    (hname : BraceFree e.1) (hy : y ≠ e.1) (hfree : BraceFree (MethodParser.substitute y e)) :
    ¬ placeholder e.1 <+: '\x7b' :: (y.toList ++ '\x7d' :: b) := by
  rw [placeholder_eq]
  rintro ⟨b', hb'⟩
  have heq : e.1.toList ++ '\x7d' :: b' = y.toList ++ '\x7d' :: b := by
    simpa using hb'
  rcases List.append_eq_append_iff.mp heq with ⟨z, hz, hrest⟩ | ⟨z, hz, hrest⟩
  · cases z with
    | nil => exact hy (String.toList_injective (by simpa using hz))
    | cons c z =>
        obtain ⟨rfl, -⟩ := List.cons.inj hrest
        -- the name is followed by a brace that closes nothing, and stays
        have hinner := replaced_substitute y e
        rw [List.append_cons] at hz
        rw [placeholder_eq, hz] at hinner
        obtain ⟨v, hv, -⟩ := hinner.exists_of_notMem (by simpa using hname.1)
        exact hfree.2 (by simp [hv])
  · cases z with
    | nil => exact hy (String.toList_injective (by simpa using hz.symm))
    | cons c z =>
        obtain ⟨rfl, -⟩ := List.cons.inj hrest
        exact hname.2 (by simp [hz])

/-- A placeholder of the template whose name has no braces once the parameter in it is
replaced is one of the result. -/
theorem placeholder_infix_of_braceFree {template y : String} {e : String × String}
    (hname : BraceFree e.1) (hy : y ≠ e.1) (hoccurs : placeholder y <:+: template.toList)
    (hfree : BraceFree (MethodParser.substitute y e)) :
    placeholder (MethodParser.substitute y e) <:+:
      (MethodParser.substitute template e).toList := by
  obtain ⟨a, b, htemplate⟩ := hoccurs
  have hclose : Replaced (placeholder e.1) e.2.toList ('\x7d' :: b)
      ('\x7d' :: replaceFrom (placeholder e.1) e.2.toList 0 b) := by
    refine .keep ?_ (replaced_replaceFrom (placeholder_ne_nil e.1) _ b)
    simp [placeholder_eq]
  have hinner : Replaced (placeholder e.1) e.2.toList (y.toList ++ '\x7d' :: b)
      ((MethodParser.substitute y e).toList ++
        '\x7d' :: replaceFrom (placeholder e.1) e.2.toList 0 b) := by
    have hy := replaced_substitute y e
    rw [placeholder_eq] at hy hclose ⊢
    exact hy.append hfree.1 hclose
  have hall := (replaced_replaceFrom (placeholder_ne_nil e.1) e.2.toList a).append_cons
    (by simpa [placeholder_eq] using hname.1)
    (hinner.keep (not_prefix_of_braceFree hname hy hfree))
  have htemplate' : template.toList = a ++ '\x7b' :: (y.toList ++ '\x7d' :: b) := by
    rw [← htemplate, placeholder_eq]
    simp
  rw [← htemplate'] at hall
  rw [(replaced_substitute template e).unique (placeholder_ne_nil e.1) hall, placeholder_eq]
  refine ⟨replaceFrom (placeholder e.1) e.2.toList 0 a,
    replaceFrom (placeholder e.1) e.2.toList 0 b, ?_⟩
  simp

/-! ## The address of a request -/

/-- Every parameter is replaced in `url`, and no placeholder of one is left. -/
def Complete (template : String) (parameters : List (String × String)) (url : String) :
    Prop :=
  url = parameters.foldl MethodParser.substitute template ∧
    ∀ e ∈ parameters, ¬ placeholder e.1 <:+: url.toList

instance (template : String) (parameters : List (String × String)) (url : String) :
    Decidable (Complete template parameters url) :=
  inferInstanceAs (Decidable (_ ∧ _))

/-- Apart from that of the last parameter the template has no placeholder of a
parameter, and none that becomes one when the last is replaced in it. -/
def LastOnly (template : String) (parameters : List (String × String)) : Prop :=
  ∀ last, parameters.getLast? = some last →
    ∀ y : String, y ≠ last.1 → placeholder y <:+: template.toList →
      y ∉ parameters.map Prod.fst ∧
        MethodParser.substitute y last ∉ parameters.map Prod.fst

theorem foldl_substitute_of_not_occurs {template : String}
    {parameters : List (String × String)}
    (h : ∀ e ∈ parameters, ¬ placeholder e.1 <:+: template.toList) :
    parameters.foldl MethodParser.substitute template = template := by
  induction parameters with
  | nil => rfl
  | cons e parameters ih =>
      rw [List.foldl_cons, substitute_of_not_occurs (h e (by simp))]
      exact ih fun e he ↦ h e (by simp [he])

theorem LastOnly.complete {template : String} {parameters : List (String × String)}
    {last : String × String} (hlast : parameters.getLast? = some last)
    (hnodup : (parameters.map Prod.fst).Nodup) (hvalue : BraceFree last.2)
    (h : LastOnly template parameters) :
    Complete template parameters (MethodParser.substitute template last) := by
  constructor
  · obtain ⟨init, rfl⟩ := List.getLast?_eq_some_iff.mp hlast
    have hinit : init.foldl MethodParser.substitute template = template := by
      apply foldl_substitute_of_not_occurs
      intro e he hoccurs
      have hne : e.1 ≠ last.1 := by
        rw [List.map_append, List.nodup_append] at hnodup
        exact hnodup.2.2 _ (List.mem_map_of_mem he) _ (by simp)
      exact (h last hlast e.1 hne hoccurs).1 (List.mem_map_of_mem (by simp [he]))
    rw [List.foldl_append, hinit]
    rfl
  · intro e he hoccurs
    obtain ⟨y, hy, hplace, hname⟩ := exists_of_placeholder_infix hvalue hoccurs
    exact (h last hlast y hy hplace).2 (hname ▸ List.mem_map_of_mem he)

/-- Where names have no braces, what is complete was so because of the last one only. -/
theorem Complete.lastOnly {template : String} {parameters : List (String × String)}
    {last : String × String} (hlast : parameters.getLast? = some last)
    (hnames : ∀ e ∈ parameters, BraceFree e.1)
    (h : Complete template parameters (MethodParser.substitute template last)) :
    LastOnly template parameters := by
  intro last' hlast' y hy hplace
  obtain rfl : last = last' := Option.some.inj (hlast.symm.trans hlast')
  have hbraces : BraceFree last.1 := hnames last (List.mem_of_getLast? hlast)
  have hnot : MethodParser.substitute y last ∉ parameters.map Prod.fst := by
    intro hmem
    obtain ⟨e, he, hname⟩ := List.mem_map.mp hmem
    have hoccurs := placeholder_infix_of_braceFree hbraces hy hplace (hname ▸ hnames e he)
    exact h.2 e he (hname ▸ hoccurs)
  refine ⟨fun hmem ↦ hnot ?_, hnot⟩
  obtain ⟨e, he, rfl⟩ := List.mem_map.mp hmem
  -- a name without braces has no placeholder in it
  have hself : MethodParser.substitute e.1 last = e.1 := by
    apply substitute_of_not_occurs
    intro hoccurs
    exact (hnames e he).1 (hoccurs.subset (by simp [placeholder_eq]))
  rwa [hself]

namespace MethodParser

/-- The parser after calls of its method, also those that throw. -/
def afterCalls (parser : MethodParser) (method : Method) (calls : List (List Argument)) :
    MethodParser :=
  calls.foldl (fun parser args ↦ (parser.newRequest () method args).1) parser

theorem newRequest_fst {M : Type*} (parser : MethodParser) (maps : M) (method : Method)
    (args : List Argument) :
    (parser.newRequest maps method args).1 = (parser.parseMethodParameters method args).1 := by
  rw [newRequest]
  split <;> simp_all

theorem afterCalls_relativeUrl {p₀ : MethodParser} (method : Method)
    (hnone : p₀.replaceRelativeUrl = none) (calls : List (List Argument)) :
    (p₀.afterCalls method calls).relativeUrl = p₀.relativeUrl ∧
      ((p₀.afterCalls method calls).replaceRelativeUrl.isSome → HasPath method) := by
  have hrun : ∀ p : MethodParser, p.relativeUrl = p₀.relativeUrl ∧
      (p.replaceRelativeUrl.isSome → HasPath method) →
      (p.afterCalls method calls).relativeUrl = p₀.relativeUrl ∧
        ((p.afterCalls method calls).replaceRelativeUrl.isSome → HasPath method) := by
    induction calls with
    | nil => exact fun p hp ↦ hp
    | cons args calls ih =>
        intro p hp
        obtain ⟨hsame, -⟩ := sameCall_parseMethodParameters (p := p) hp.1 hnone method args
        refine ih (p.newRequest () method args).1 ?_
        rw [newRequest_fst]
        exact ⟨hsame.kept.1.trans hp.1, hasPath_of_replaceRelativeUrl hp.2 args⟩
  exact hrun p₀ ⟨rfl, by simp [hnone]⟩

theorem HasPath.pathNames_ne_nil {method : Method} (h : HasPath method) :
    method.pathNames ≠ [] := by
  obtain ⟨annotations, hmem, name, hhead⟩ := h
  apply List.ne_nil_of_mem (a := name)
  refine List.mem_filterMap.mpr ⟨annotations, hmem, ?_⟩
  simp [hhead, ParameterAnnotation.pathName]

theorem exists_arg_of_mem_pathParameters {method : Method} {args : List Argument}
    {e : String × String} (he : e ∈ method.pathParameters args) :
    ∃ arg ∈ args, e.2 = arg.toString := by
  obtain ⟨parameter, hmem, hnamed⟩ := List.mem_filterMap.mp he
  refine ⟨parameter.2, (List.of_mem_zip hmem).2, ?_⟩
  obtain ⟨name, -, rfl⟩ := Option.map_eq_some_iff.mp hnamed
  rfl

/-- What `newRequest` has in place of the template: it with the last path parameter
replaced, or the template itself if there is none. -/
theorem newRequest_relativeUrl {baseUrl : String} {method : Method} {p₀ q : MethodParser}
    {args : List Argument} {M : Type*} {maps : M} {request : HiRequest M}
    (hparse : parse baseUrl method = .ok p₀) (calls : List (List Argument))
    (hnew : (p₀.afterCalls method calls).newRequest maps method args = (q, .ok request)) :
    (method.pathParameters args).map Prod.fst = method.pathNames ∧
      request.relativeUrl = some (((method.pathParameters args).getLast?.map
        (substitute p₀.relativeUrl)).getD p₀.relativeUrl) := by
  obtain ⟨hurl, hpath⟩ := afterCalls_relativeUrl method
    (parse_replaceRelativeUrl hparse) calls
  cases hcall : (p₀.afterCalls method calls).parseMethodParameters method args with
  | mk p thrown =>
      cases thrown with
      | some e => simp [newRequest, hcall] at hnew
      | none =>
          obtain ⟨hlength, -, hreplaced, hkept, -⟩ := parseMethodParameters_of_ok hcall
          obtain ⟨made, hmade, -, -, hmadeUrl, -⟩ := newRequest_of_ok hcall maps
          obtain ⟨-, hrequest⟩ := Prod.mk.inj (hmade.symm.trans hnew)
          rw [← Except.ok.inj hrequest, hmadeUrl, requestUrl, hreplaced, hkept, hurl]
          have hnames : (method.pathParameters args).map Prod.fst = method.pathNames :=
            Method.map_fst_valuesOf _ hlength
          refine ⟨hnames, ?_⟩
          cases hlast : (method.pathParameters args).getLast? with
          | some last => rfl
          | none =>
              -- without path parameters no call has replaced anything
              have hold : (p₀.afterCalls method calls).replaceRelativeUrl = none := by
                by_contra hsome
                refine (hpath (Option.isSome_iff_ne_none.mpr hsome)).pathNames_ne_nil ?_
                rw [← hnames, List.getLast?_eq_none_iff.mp hlast, List.map_nil]
              rw [hold]
              rfl

/-- The address of a request is complete if only the last path parameter stands in the
template, and for names without braces in no other case. -/
theorem newRequest_complete {baseUrl : String} {method : Method} {p₀ q : MethodParser}
    {args : List Argument} {M : Type*} {maps : M} {request : HiRequest M}
    (hparse : parse baseUrl method = .ok p₀) (calls : List (List Argument))
    (hnew : (p₀.afterCalls method calls).newRequest maps method args = (q, .ok request))
    (hnodup : method.pathNames.Nodup) (hvalues : ∀ arg ∈ args, BraceFree arg.toString) :
    ∃ url, request.relativeUrl = some url ∧
      (LastOnly p₀.relativeUrl (method.pathParameters args) →
        Complete p₀.relativeUrl (method.pathParameters args) url) ∧
      ((∀ name ∈ method.pathNames, BraceFree name) →
        Complete p₀.relativeUrl (method.pathParameters args) url →
          LastOnly p₀.relativeUrl (method.pathParameters args)) := by
  obtain ⟨hnames, hurl⟩ := newRequest_relativeUrl hparse calls hnew
  refine ⟨_, hurl, ?_⟩
  rw [← hnames] at hnodup ⊢
  cases hlast : (method.pathParameters args).getLast? with
  | none =>
      rw [List.getLast?_eq_none_iff.mp hlast]
      exact ⟨fun _ ↦ ⟨rfl, by simp⟩, fun _ _ ↦ by simp [LastOnly]⟩
  | some last =>
      obtain ⟨arg, harg, hvalue⟩ :=
        exists_arg_of_mem_pathParameters (List.mem_of_getLast? hlast)
      constructor
      · exact LastOnly.complete hlast hnodup (hvalue ▸ hvalues arg harg)
      · intro hfree
        exact Complete.lastOnly hlast fun e he ↦ hfree e.1 (List.mem_map_of_mem he)

/-- The method of the documentation, with its template and its path parameters. -/
def listCities (template : String) (names : List String) : Method where
  name := "listCities"
  annotations := [.baseUrl "https://api.devio.org/as/", .post template true]
  parameterAnnotations := names.map fun name ↦ [.path name]
  genericReturnType := .parameterized "HiCall" [.cls "JsonObject"]

/-- Of two path parameters the first is still in the address. -/
theorem exists_incomplete_relativeUrl :
    ∃ p₀ q request, parse "https://api.devio.org/"
        (listCities "/cities/\x7bprovince\x7d/\x7bcity\x7d" ["province", "city"]) = .ok p₀ ∧
      p₀.newRequest () (listCities "/cities/\x7bprovince\x7d/\x7bcity\x7d"
        ["province", "city"]) [.int 3, .int 5] = (q, .ok request) ∧
      request.relativeUrl = some "/cities/\x7bprovince\x7d/5" ∧
      ¬ Complete p₀.relativeUrl [("province", "3"), ("city", "5")]
        "/cities/\x7bprovince\x7d/5" := by
  refine ⟨_, _, _, rfl, rfl, ?_, ?_⟩ <;> decide

/-- A method with one path parameter, called twice. -/
theorem newRequest_complete_listCities :
    ∃ p₀ q request, parse "https://api.devio.org/"
        (listCities "/cities/\x7bprovince\x7d" ["province"]) = .ok p₀ ∧
      (p₀.afterCalls (listCities "/cities/\x7bprovince\x7d" ["province"])
        [[.int 8]]).newRequest () (listCities "/cities/\x7bprovince\x7d" ["province"])
          [.int 3] = (q, .ok request) ∧
      request.relativeUrl = some "/cities/3" ∧
      LastOnly "/cities/\x7bprovince\x7d" [("province", "3")] := by
  obtain ⟨p₀, q, request, hparse, hnew, htemplate, hurl⟩ :
      ∃ (p₀ q : MethodParser) (request : HiRequest Unit), parse "https://api.devio.org/"
          (listCities "/cities/\x7bprovince\x7d" ["province"]) = .ok p₀ ∧
        (p₀.afterCalls (listCities "/cities/\x7bprovince\x7d" ["province"])
          [[.int 8]]).newRequest () (listCities "/cities/\x7bprovince\x7d" ["province"])
            [.int 3] = (q, .ok request) ∧
        p₀.relativeUrl = "/cities/\x7bprovince\x7d" ∧
        request.relativeUrl = some "/cities/3" :=
    ⟨_, _, _, rfl, rfl, by decide, by decide⟩
  obtain ⟨url, hurl', -, hlast⟩ :=
    newRequest_complete hparse [[.int 8]] hnew (by decide) (by decide)
  obtain rfl := Option.some.inj (hurl'.symm.trans hurl)
  rw [htemplate] at hlast
  exact ⟨p₀, q, request, hparse, hnew, hurl, hlast (by decide) (by decide +kernel)⟩

end MethodParser

end HiApp.Restful
