import HiApp.Lib.Java
import Mathlib.Data.List.Nodup

/-!
# The annotation processor for destinations

The processor collects the classes with a `@Destination` annotation into
`destination.json`.  A page is identified by its url there; the id that the router will use
is computed from the hash code of the class name.
-/

namespace HiApp.Navigation

open Java

inductive PageType where
  | activity
  | fragment
  | dialog
  deriving DecidableEq

/-- The names of the types in lower case. -/
def PageType.name : PageType → String
  | .activity => "activity"
  | .fragment => "fragment"
  | .dialog => "dialog"

/-- A class with the text of its superclass, type arguments included. -/
inductive TypeElement where
  | root (qualifiedName : String)
  | extending (qualifiedName superClazzName : String) (superclass : TypeElement)
  deriving DecidableEq

namespace TypeElement

def qualifiedName : TypeElement → String
  | root qualifiedName => qualifiedName
  | extending qualifiedName _ _ => qualifiedName

/-- The texts of the superclasses, from the nearest on. -/
def superClazzNames : TypeElement → List String
  | root _ => []
  | extending _ superClazzName superclass => superClazzName :: superclass.superClazzNames

end TypeElement

def getDestinationType : TypeElement → Option PageType
  | .root _ => none
  | .extending _ superClazzName superclass =>
      if Contains superClazzName PageType.activity.name then some .activity
      else if Contains superClazzName PageType.fragment.name then some .fragment
      else if Contains superClazzName PageType.dialog.name then some .dialog
      else getDestinationType superclass

/-- A class has no type when no superclass is named after one. -/
theorem getDestinationType_eq_none_iff {typeElement : TypeElement} :
    getDestinationType typeElement = none ↔
      ∀ superClazzName ∈ typeElement.superClazzNames, ∀ t : PageType,
        ¬ Contains superClazzName t.name := by
  induction typeElement with
  | root qualifiedName => simp [getDestinationType, TypeElement.superClazzNames]
  | extending qualifiedName superClazzName superclass ih =>
      have htypes : (∀ t : PageType, ¬ Contains superClazzName t.name) ↔
          ¬ Contains superClazzName PageType.activity.name ∧
            ¬ Contains superClazzName PageType.fragment.name ∧
            ¬ Contains superClazzName PageType.dialog.name := by
        constructor
        · exact fun h ↦ ⟨h .activity, h .fragment, h .dialog⟩
        · rintro ⟨hactivity, hfragment, hdialog⟩ t
          cases t with
          | activity => exact hactivity
          | fragment => exact hfragment
          | dialog => exact hdialog
      rw [TypeElement.superClazzNames, List.forall_mem_cons, ← ih, htypes, getDestinationType]
      simp only [ite_eq_iff, reduceCtorEq, and_false, false_or, and_assoc]

/-- An annotated class. -/
structure AnnotatedElement where
  typeElement : TypeElement
  pageUrl : String
  asStarter : Bool
  deriving DecidableEq

/-- `destType` is `none` where the code has `null`. -/
structure Destination where
  pageUrl : String
  id : ℤ
  asStarter : Bool
  destType : Option PageType
  clazzName : String
  deriving DecidableEq

def AnnotatedElement.clazzName (e : AnnotatedElement) : String := e.typeElement.qualifiedName

def AnnotatedElement.destination (e : AnnotatedElement) : Destination where
  pageUrl := e.pageUrl
  id := absInt (hashCode e.clazzName)
  asStarter := e.asStarter
  destType := getDestinationType e.typeElement
  clazzName := e.clazzName

/-- What the processor has collected, and the errors that it has reported. -/
structure NavProcessor where
  destMap : List (String × Destination) := []
  errors : List String := []
  deriving DecidableEq

namespace NavProcessor

def handleElement (p : NavProcessor) (e : AnnotatedElement) : NavProcessor :=
  if e.pageUrl ∈ p.destMap.map Prod.fst then
    { p with errors := p.errors ++ ["不同的页面不允许使用相同的pageUrl:" ++ e.pageUrl] }
  else { p with destMap := p.destMap ++ [(e.pageUrl, e.destination)] }

def handleDestination (elements : List AnnotatedElement) (p : NavProcessor) : NavProcessor :=
  elements.foldl handleElement p

/-- Nothing is emitted when no class is annotated. -/
def process (elements : List AnnotatedElement) : Option NavProcessor :=
  if elements = [] then none else some (handleDestination elements {})

/-- Pages with different urls are all collected, and no error is reported. -/
theorem handleDestination_of_nodup {elements : List AnnotatedElement} {p : NavProcessor}
    (hnodup : (p.destMap.map Prod.fst ++ elements.map (·.pageUrl)).Nodup) :
    handleDestination elements p =
      { p with destMap := p.destMap ++ elements.map fun e ↦ (e.pageUrl, e.destination) } := by
  induction elements generalizing p with
  | nil => simp [handleDestination]
  | cons e elements ih =>
      have hnew : e.pageUrl ∉ p.destMap.map Prod.fst := by
        intro hmem
        exact (List.nodup_append.mp hnodup).2.2 _ hmem _ (by simp) rfl
      have hstep : handleElement p e =
          { p with destMap := p.destMap ++ [(e.pageUrl, e.destination)] } := if_neg hnew
      have htail : (((p.handleElement e).destMap.map Prod.fst) ++
          elements.map (·.pageUrl)).Nodup := by
        simpa [hstep] using hnodup
      calc
        handleDestination (e :: elements) p = handleDestination elements (p.handleElement e) := rfl
        _ = _ := by
          rw [ih htail, hstep]
          simp

end NavProcessor

end HiApp.Navigation
