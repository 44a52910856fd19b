import HiApp.Navigation.NavProcessor

/-!
# Types of destinations

The type of a destination should be told by the classes that it extends.  The processor
looks for words in lower case in their full names, and finds them in the packages only.
-/

namespace HiApp.Navigation

open Java

namespace TypeElement

/-- The classes above, from the nearest on. -/
def superclasses : TypeElement → List String
  | root _ => []
  | extending _ _ superclass => superclass.qualifiedName :: superclass.superclasses

def activityClass : String := "android.app.Activity"

def dialogFragmentClasses : List String :=
  ["androidx.fragment.app.DialogFragment", "android.support.v4.app.DialogFragment",
    "android.app.DialogFragment"]

def fragmentClasses : List String :=
  ["androidx.fragment.app.Fragment", "android.support.v4.app.Fragment", "android.app.Fragment"]

def IsActivity (e : TypeElement) : Prop := activityClass ∈ e.superclasses

def IsDialog (e : TypeElement) : Prop := ∃ c ∈ dialogFragmentClasses, c ∈ e.superclasses

def IsFragment (e : TypeElement) : Prop := ∃ c ∈ fragmentClasses, c ∈ e.superclasses

instance (e : TypeElement) : Decidable e.IsActivity :=
  inferInstanceAs (Decidable (_ ∈ _))

instance (e : TypeElement) : Decidable e.IsDialog :=
  inferInstanceAs (Decidable (∃ c ∈ dialogFragmentClasses, c ∈ e.superclasses))

instance (e : TypeElement) : Decidable e.IsFragment :=
  inferInstanceAs (Decidable (∃ c ∈ fragmentClasses, c ∈ e.superclasses))

/-- The type is the one that the ancestors give. -/
structure Classified (e : TypeElement) : Prop where
  activity : e.IsActivity → getDestinationType e = some .activity
  dialog : e.IsDialog → getDestinationType e = some .dialog
  fragment : e.IsFragment → ¬ e.IsDialog → getDestinationType e = some .fragment
  unclassified : getDestinationType e = none → ¬ e.IsActivity ∧ ¬ e.IsDialog ∧ ¬ e.IsFragment

end TypeElement

/-! ## Words in names -/

/-- The name has none of the words. -/
def Silent (name : String) : Prop := ∀ t : PageType, ¬ Contains name t.name

/-- The name has the word, and none of those that are looked for before it. -/
def Shows (name : String) : PageType → Prop
  | .activity => Contains name PageType.activity.name
  | .fragment => ¬ Contains name PageType.activity.name ∧ Contains name PageType.fragment.name
  | .dialog => ¬ Contains name PageType.activity.name ∧
      ¬ Contains name PageType.fragment.name ∧ Contains name PageType.dialog.name

/-- Of the names that are not silent, the first shows the type. -/
def Leads (superClazzNames : List String) (t : PageType) : Prop :=
  ∃ pre name post, superClazzNames = pre ++ name :: post ∧ (∀ n ∈ pre, Silent n) ∧ Shows name t

theorem silent_iff {name : String} :
    Silent name ↔ ¬ Contains name PageType.activity.name ∧
      ¬ Contains name PageType.fragment.name ∧ ¬ Contains name PageType.dialog.name := by
  constructor
  · intro h
    exact ⟨h .activity, h .fragment, h .dialog⟩
  · rintro ⟨hactivity, hfragment, hdialog⟩ t
    cases t with
    | activity => exact hactivity
    | fragment => exact hfragment
    | dialog => exact hdialog

theorem leads_cons {name : String} {names : List String} {t : PageType} :
    Leads (name :: names) t ↔ Shows name t ∨ Silent name ∧ Leads names t := by
  constructor
  · rintro ⟨pre, n, post, hsplit, hpre, hn⟩
    cases pre with
    | nil =>
        obtain ⟨rfl, -⟩ := List.cons.inj hsplit
        exact .inl hn
    | cons m pre =>
        obtain ⟨rfl, hrest⟩ := List.cons.inj hsplit
        rw [List.forall_mem_cons] at hpre
        exact .inr ⟨hpre.1, pre, n, post, hrest, hpre.2, hn⟩
  · rintro (h | ⟨hsilent, pre, n, post, rfl, hpre, hn⟩)
    · exact ⟨[], name, names, rfl, by simp, h⟩
    · exact ⟨name :: pre, n, post, rfl, List.forall_mem_cons.mpr ⟨hsilent, hpre⟩, hn⟩

theorem getDestinationType_eq_some_iff {e : TypeElement} {t : PageType} :
    getDestinationType e = some t ↔ Leads e.superClazzNames t := by
  induction e with
  | root qualifiedName => simp [getDestinationType, TypeElement.superClazzNames, Leads]
  | extending qualifiedName superClazzName superclass ih =>
      rw [TypeElement.superClazzNames, leads_cons, ← ih, silent_iff, getDestinationType]
      by_cases hactivity : Contains superClazzName PageType.activity.name
      · cases t <;> simp [Shows, hactivity]
      · by_cases hfragment : Contains superClazzName PageType.fragment.name
        · cases t <;> simp [Shows, hactivity, hfragment]
        · by_cases hdialog : Contains superClazzName PageType.dialog.name
          · cases t <;> simp [Shows, hactivity, hfragment, hdialog]
          · cases t <;> simp [Shows, hactivity, hfragment, hdialog]

/-! ## Classes -/

namespace TypeElement

/-- A class has the type of its ancestors exactly when the first name above it that has one
of the words has the right one. -/
theorem classified_iff (e : TypeElement) :
    e.Classified ↔
      (e.IsActivity → Leads e.superClazzNames .activity) ∧
        (e.IsDialog → Leads e.superClazzNames .dialog) ∧
        (e.IsFragment → ¬ e.IsDialog → Leads e.superClazzNames .fragment) := by
  simp only [← getDestinationType_eq_some_iff]
  constructor
  · intro h
    exact ⟨h.activity, h.dialog, h.fragment⟩
  · rintro ⟨hactivity, hdialog, hfragment⟩
    refine ⟨hactivity, hdialog, hfragment, ?_⟩
    intro hnone
    have hnot : ¬ e.IsDialog := fun h ↦ by simp [hdialog h] at hnone
    refine ⟨fun h ↦ ?_, hnot, fun h ↦ ?_⟩
    · simp [hactivity h] at hnone
    · simp [hfragment h hnot] at hnone

/-- Each class extends the next one, and the last one `Object`. -/
def ofNames (names : List String) : TypeElement :=
  names.foldr (fun name e ↦ .extending name e.qualifiedName e) (.root "java.lang.Object")

/-- An activity of an app, with the classes that it extends. -/
def mainActivity : TypeElement :=
  ofNames ["com.example.MainActivity", "androidx.appcompat.app.AppCompatActivity",
    "androidx.fragment.app.FragmentActivity", "androidx.activity.ComponentActivity",
    "androidx.core.app.ComponentActivity", "android.app.Activity",
    "android.view.ContextThemeWrapper", "android.content.ContextWrapper",
    "android.content.Context"]

/-- `FragmentActivity` decides for it, by its package. -/
theorem not_classified_mainActivity :
    mainActivity.IsActivity ∧ getDestinationType mainActivity = some .fragment ∧
      ¬ mainActivity.Classified := by
  have htype : getDestinationType mainActivity = some .fragment := by
    decide
  have hactivity : mainActivity.IsActivity := by
    decide
  refine ⟨hactivity, htype, ?_⟩
  intro h
  have hright := h.activity hactivity
  rw [htype] at hright
  simp at hright

/-- A dialog is a fragment by the package of the class that it extends. -/
example : getDestinationType (ofNames ["com.example.AskDialog",
    "androidx.fragment.app.DialogFragment", "androidx.fragment.app.Fragment"]) =
      some .fragment := by
  decide

/-- An activity of the framework has no type. -/
example : getDestinationType (ofNames ["com.example.PlainActivity", "android.app.Activity"]) =
    none := by
  decide

end TypeElement

end HiApp.Navigation
