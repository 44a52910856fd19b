import HiApp.Restful.MethodParser

/-!
# The parameters of a call

What a completed call of a method reads from its arguments: the form fields, in
order, and the parts of the path.
-/

namespace HiApp.Restful

namespace ParameterAnnotation

def filedName : ParameterAnnotation → Option String
  | .filed value => some value
  | .path _ | .cacheStrategy _ | .other _ => none

def pathName : ParameterAnnotation → Option String
  | .path value => some value
  | .filed _ | .cacheStrategy _ | .other _ => none

end ParameterAnnotation

namespace Method

/-- An argument that has an annotation of the kind, with its name there. -/
def named (kind : ParameterAnnotation → Option String)
    (parameter : List ParameterAnnotation × Argument) : Option (String × String) :=
  (parameter.1.head?.bind kind).map fun name ↦ (name, parameter.2.toString)

def namesOf (kind : ParameterAnnotation → Option String) (method : Method) : List String :=
  method.parameterAnnotations.filterMap (List.head? · |>.bind kind)

def valuesOf (kind : ParameterAnnotation → Option String) (method : Method)
    (args : List Argument) : List (String × String) :=
  (method.parameterAnnotations.zip args).filterMap (named kind)

def filedNames (method : Method) : List String :=
  method.namesOf ParameterAnnotation.filedName

def filedParameters (method : Method) (args : List Argument) : LinkedHashMap :=
  method.valuesOf ParameterAnnotation.filedName args

def pathNames (method : Method) : List String :=
  method.namesOf ParameterAnnotation.pathName

def pathParameters (method : Method) (args : List Argument) : List (String × String) :=
  method.valuesOf ParameterAnnotation.pathName args

/-- With an argument for every parameter each name gets a value. -/
theorem map_fst_valuesOf {method : Method} {args : List Argument}
    (kind : ParameterAnnotation → Option String)
    (hlength : method.parameterAnnotations.length = args.length) :
    (method.valuesOf kind args).map Prod.fst = method.namesOf kind := by
  unfold valuesOf namesOf
  generalize method.parameterAnnotations = annotations at hlength
  induction annotations generalizing args with
  | nil => rfl
  | cons first annotations ih =>
      cases args with
      | nil => simp at hlength
      | cons arg args =>
          have hrest := ih (by simpa using hlength)
          rw [List.zip_cons_cons, List.filterMap_cons, List.filterMap_cons]
          cases hname : first.head?.bind kind with
          | none => simpa [named, hname] using hrest
          | some name => simpa [named, hname] using hrest

end Method

namespace LinkedHashMap

/-- New names are put in their order. -/
theorem foldl_put_eq_append {entries m : LinkedHashMap}
    (hnodup : (m.map Prod.fst ++ entries.map Prod.fst).Nodup) :
    entries.foldl (fun m e ↦ m.put e.1 e.2) m = m ++ entries := by
  induction entries generalizing m with
  | nil => simp
  | cons e entries ih =>
      have hput : m.put e.1 e.2 = m ++ [e] := by
        have hnew : e.1 ∉ m.map Prod.fst := by
          intro hmem
          exact (List.nodup_append.mp hnodup).2.2 _ hmem _ (by simp) rfl
        rw [put, if_neg hnew]
      rw [List.foldl_cons, hput, ih (by simpa using hnodup)]
      simp

end LinkedHashMap

namespace MethodParser

variable {p q : MethodParser} {method : Method} {args : List Argument}

/-- `template` with the occurrences of `name` in braces replaced. -/
def substitute (template : String) (e : String × String) : String :=
  replace template ("\x7b" ++ e.1 ++ "\x7d") e.2

/-- A completed turn of the loop over the parameters puts the field or replaces the
path that the annotation names. -/
theorem parseParameter_of_ok {parameter : (List ParameterAnnotation × Argument) × ℕ}
    (hturn : p.parseParameter parameter = (q, none)) :
    q.parameters = (Method.named ParameterAnnotation.filedName parameter.1).toList.foldl
        (fun m e ↦ m.put e.1 e.2) p.parameters ∧
      q.replaceRelativeUrl =
        ((Method.named ParameterAnnotation.pathName parameter.1).map
          (substitute p.relativeUrl)).or p.replaceRelativeUrl ∧
      q.relativeUrl = p.relativeUrl ∧ q.domainUrl = p.domainUrl := by
  obtain ⟨e, h⟩ | ⟨key, hhead, h⟩ | ⟨name, hhead, h⟩ | ⟨strategy, n, hhead, h⟩ :=
    parseParameter_cases p parameter
  · simp [h] at hturn
  all_goals
    rw [h, Prod.mk.injEq] at hturn
    rw [← hturn.1]
    simp [Method.named, hhead, ParameterAnnotation.filedName,
      ParameterAnnotation.pathName, substitute]

theorem forEach_parseParameter {l : List (List ParameterAnnotation × Argument)} {k : ℕ}
    (hloop : forEach parseParameter p (l.zipIdx k) = (q, none)) :
    q.parameters = (l.filterMap (Method.named ParameterAnnotation.filedName)).foldl
        (fun m e ↦ m.put e.1 e.2) p.parameters ∧
      q.replaceRelativeUrl =
        ((l.filterMap (Method.named ParameterAnnotation.pathName)).getLast?.map
          (substitute p.relativeUrl)).or p.replaceRelativeUrl ∧
      q.relativeUrl = p.relativeUrl ∧ q.domainUrl = p.domainUrl := by
  induction l generalizing p k with
  | nil =>
      obtain rfl : p = q := congrArg Prod.fst hloop
      simp
  | cons parameter l ih =>
      obtain ⟨u, hturn, hrest⟩ := forEach.exists_of_cons_eq_none hloop
      obtain ⟨hparams, hreplace, hurl, hdomain⟩ := parseParameter_of_ok hturn
      obtain ⟨hparams', hreplace', hurl', hdomain'⟩ := ih hrest
      refine ⟨?_, ?_, hurl'.trans hurl, hdomain'.trans hdomain⟩
      · rw [hparams', hparams, List.filterMap_cons]
        cases Method.named ParameterAnnotation.filedName parameter <;> simp
      · rw [hreplace', hreplace, hurl, List.filterMap_cons]
        cases Method.named ParameterAnnotation.pathName parameter with
        | none => simp
        | some e =>
            cases hlast : (l.filterMap
              (Method.named ParameterAnnotation.pathName)).getLast? with
            | none => simp [List.getLast?_eq_none_iff.mp hlast]
            | some last => simp [List.getLast?_cons, hlast]

/-- A completed call has put every field in order, and replaced the last part of the
path in the template: each replacement starts from the template again. -/
theorem parseMethodParameters_of_ok
    (hcall : p.parseMethodParameters method args = (q, none)) :
    method.parameterAnnotations.length = args.length ∧
      q.parameters = (method.filedParameters args).foldl
        (fun (m : LinkedHashMap) e ↦ m.put e.1 e.2) [] ∧
      q.replaceRelativeUrl = ((method.pathParameters args).getLast?.map
        (substitute p.relativeUrl)).or p.replaceRelativeUrl ∧
      q.relativeUrl = p.relativeUrl ∧ q.domainUrl = p.domainUrl := by
  unfold parseMethodParameters at hcall
  split at hcall
  · simp at hcall
  · rename_i hlength
    exact ⟨not_not.mp hlength, forEach_parseParameter hcall⟩

/-- The fields of a call with distinct names are its entries. -/
theorem parameters_of_nodup (hcall : p.parseMethodParameters method args = (q, none))
    (hnodup : method.filedNames.Nodup) : q.parameters = method.filedParameters args := by
  obtain ⟨hlength, hparams, -⟩ := parseMethodParameters_of_ok hcall
  rw [hparams, LinkedHashMap.foldl_put_eq_append, List.nil_append]
  rw [Method.filedParameters, Method.map_fst_valuesOf _ hlength]
  exact hnodup

end MethodParser

end HiApp.Restful
