import HiApp.Lib.SparseArray
import HiApp.Navigation.NavProcessor
import Mathlib.Data.List.Perm.Subperm

/-!
# The graph built from `destination.json`

The entries of the file become the nodes of a graph.  A node takes the place of another one
with the same id, so that classes whose names have the same hash code, up to the sign, end
up in a single node.
-/

namespace HiApp.Navigation

open Java

/-- What a node leads to. -/
inductive Page where
  | activity (packageName className : String)
  | fragment (className : String)
  | dialog (className : String)
  deriving DecidableEq

def Page.className : Page → String
  | activity _ className => className
  | fragment className => className
  | dialog className => className

structure NavDestination where
  id : ℤ
  page : Page
  deriving DecidableEq

def Destination.node (packageName : String) (destination : Destination) :
    PageType → NavDestination
  | .activity => ⟨destination.id, .activity packageName destination.clazzName⟩
  | .fragment => ⟨destination.id, .fragment destination.clazzName⟩
  | .dialog => ⟨destination.id, .dialog destination.clazzName⟩

inductive Thrown where
  | nullPointer
  | illegalArgument
  deriving DecidableEq

structure NavGraph where
  mNodes : SparseArray NavDestination := .empty
  startDestination : ℤ := 0

namespace NavGraph

/-- A destination must have an id. -/
def addDestination (graph : NavGraph) (node : NavDestination) : Except Thrown NavGraph :=
  if node.id = 0 then .error .illegalArgument
  else .ok { graph with mNodes := graph.mNodes.put node.id node }

def setStarter (graph : NavGraph) (destination : Destination) : NavGraph :=
  if destination.asStarter then { graph with startDestination := destination.id } else graph

/-- The body of the loop in `builderNavGraph`.  It calls `equals` on the type. -/
def addNode (packageName : String) (graph : NavGraph) (destination : Destination) :
    Except Thrown NavGraph :=
  match destination.destType with
  | none => .error .nullPointer
  | some destType =>
      (graph.addDestination (destination.node packageName destType)).map
        fun graph ↦ graph.setStarter destination

/-- The destinations come in the order of a hash map. -/
def builderNavGraph (packageName : String) (destinations : List Destination) :
    Except Thrown NavGraph :=
  destinations.foldlM (addNode packageName) {}

end NavGraph

/-- Whatever the order of the map is, the graph has one node for each class, under its name
and with an id that is not negative. -/
def RoundTrip (packageName : String) (elements : List AnnotatedElement) : Prop :=
  ∀ p ∈ NavProcessor.process elements, ∀ destinations : List Destination,
    destinations.Perm (p.destMap.map Prod.snd) →
      ∃ graph, NavGraph.builderNavGraph packageName destinations = .ok graph ∧
        (graph.mNodes.values.map (·.page.className)).Perm (elements.map (·.clazzName)) ∧
        ∀ node ∈ graph.mNodes.values, 0 ≤ node.id

/-- Every class has a superclass that is named after a type, and its name has a hash code
other than zero and the least integer; the hash codes of two classes differ, also up to the
sign. -/
structure Distinguished (elements : List AnnotatedElement) : Prop where
  classified : ∀ e ∈ elements, ∃ superClazzName ∈ e.typeElement.superClazzNames,
    ∃ t : PageType, Contains superClazzName t.name
  proper : ∀ e ∈ elements, hashCode e.clazzName ≠ 0 ∧
    hashCode e.clazzName ≠ BitVec.intMin 32
  distinct : elements.Pairwise fun e e' ↦
    hashCode e.clazzName ≠ hashCode e'.clazzName ∧ hashCode e.clazzName ≠ -hashCode e'.clazzName

namespace NavGraph

variable {packageName : String} {graph graph' : NavGraph} {destination : Destination}
  {destinations l : List Destination}

@[simp] theorem id_node (t : PageType) :
    (destination.node packageName t).id = destination.id := by
  cases t <;> rfl

@[simp] theorem className_node (t : PageType) :
    (destination.node packageName t).page.className = destination.clazzName := by
  cases t <;> rfl

@[simp] theorem mNodes_setStarter : (graph.setStarter destination).mNodes = graph.mNodes := by
  unfold setStarter
  split <;> rfl

/-- A destination is added when it has a type and an id. -/
theorem exists_addNode_iff :
    (∃ graph', addNode packageName graph destination = .ok graph') ↔
      destination.destType ≠ none ∧ destination.id ≠ 0 := by
  cases htype : destination.destType with
  | none => simp [addNode, htype]
  | some t =>
      by_cases hid : destination.id = 0
      · simp [addNode, htype, addDestination, hid, Except.map]
      · simp [addNode, htype, addDestination, hid, Except.map]

theorem mNodes_addNode (h : addNode packageName graph destination = .ok graph') :
    ∃ t, graph'.mNodes =
      graph.mNodes.put destination.id (destination.node packageName t) := by
  cases htype : destination.destType with
  | none => simp [addNode, htype] at h
  | some t =>
      by_cases hid : destination.id = 0
      · simp [addNode, htype, addDestination, hid, Except.map] at h
      · simp only [addNode, htype, addDestination, id_node, if_neg hid, Except.map,
          Except.ok.injEq] at h
        exact ⟨t, by rw [← h, mNodes_setStarter]⟩

/-- The loop is not left early when every destination has a type and an id. -/
theorem exists_foldlM_iff :
    (∃ graph', l.foldlM (addNode packageName) graph = .ok graph') ↔
      ∀ d ∈ l, d.destType ≠ none ∧ d.id ≠ 0 := by
  induction l generalizing graph with
  | nil => simp [pure, Except.pure]
  | cons d l ih =>
      have hhead : (∃ graph', addNode packageName graph d = .ok graph') ↔ _ := exists_addNode_iff
      rw [List.forall_mem_cons, ← hhead]
      cases hadd : addNode packageName graph d with
      | error thrown => simp [List.foldlM_cons, hadd, bind, Except.bind]
      | ok graph₁ => simp [List.foldlM_cons, hadd, bind, Except.bind, ih]

/-- What the graph has after some of the destinations. -/
structure Built (graph : NavGraph) (destinations : List Destination) : Prop where
  keys : ∀ k, k ∈ graph.mNodes.keys ↔ k ∈ destinations.map (·.id)
  ids : ∀ e ∈ graph.mNodes.entries, e.2.id = e.1
  names : (destinations.map (·.id)).Nodup →
    (graph.mNodes.values.map (·.page.className)).Perm (destinations.map (·.clazzName))

theorem Built.addNode (h : graph.Built destinations)
    (hadd : addNode packageName graph destination = .ok graph') :
    graph'.Built (destinations ++ [destination]) := by
  obtain ⟨t, hnodes⟩ := mNodes_addNode hadd
  refine ⟨fun k ↦ ?_, fun e he ↦ ?_, fun hnodup ↦ ?_⟩
  · rw [hnodes, SparseArray.mem_keys_put, h.keys]
    simp [or_comm]
  · rw [hnodes] at he
    rcases SparseArray.mem_putEntry he with rfl | he
    · exact id_node t
    · exact h.ids e he
  · rw [List.map_append, List.nodup_append] at hnodup
    obtain ⟨hold, -, hdisjoint⟩ := hnodup
    have hnew : destination.id ∉ graph.mNodes.keys := by
      rw [h.keys]
      exact fun hmem ↦ hdisjoint _ hmem _ (by simp) rfl
    have hput := SparseArray.put_perm (destination.node packageName t) hnew
    have hvalues : (graph'.mNodes.values.map (·.page.className)).Perm
        (destination.clazzName :: graph.mNodes.values.map (·.page.className)) := by
      rw [hnodes]
      simpa [SparseArray.values] using (hput.map Prod.snd).map (·.page.className)
    have hlast : (destination.clazzName :: destinations.map (·.clazzName)).Perm
        ((destinations ++ [destination]).map (·.clazzName)) := by
      rw [List.map_append]
      exact (List.perm_append_singleton _ _).symm
    exact (hvalues.trans ((h.names hold).cons _)).trans hlast

theorem Built.foldlM (h : graph.Built destinations)
    (hfold : l.foldlM (NavGraph.addNode packageName) graph = .ok graph') :
    graph'.Built (destinations ++ l) := by
  induction l generalizing graph destinations with
  | nil =>
      obtain rfl : graph = graph' := Except.ok.inj hfold
      simpa using h
  | cons d l ih =>
      cases hadd : NavGraph.addNode packageName graph d with
      | error thrown => simp [List.foldlM_cons, hadd, bind, Except.bind] at hfold
      | ok graph₁ =>
          rw [List.foldlM_cons, hadd] at hfold
          simpa using ih (h.addNode hadd) hfold

theorem built_builderNavGraph (h : builderNavGraph packageName l = .ok graph) : graph.Built l := by
  have hempty : ({} : NavGraph).Built [] :=
    ⟨by simp [SparseArray.empty, SparseArray.keys], by simp [SparseArray.empty],
      fun _ ↦ List.Perm.nil⟩
  exact hempty.foldlM h

/-- The ids are taken over without loss exactly when they differ. -/
theorem nodup_of_length_eq (h : graph.Built l) (hlength : graph.mNodes.size = l.length) :
    (l.map (·.id)).Nodup := by
  have hsub : graph.mNodes.keys ⊆ l.map (·.id) := fun k hk ↦ (h.keys k).mp hk
  have hperm : graph.mNodes.keys.Perm (l.map (·.id)) := by
    apply (graph.mNodes.nodup_keys.subperm hsub).perm_of_length_le
    rw [List.length_map, SparseArray.length_keys, hlength]
  exact hperm.nodup_iff.mp graph.mNodes.nodup_keys

end NavGraph

section

variable {packageName : String} {elements : List AnnotatedElement}

theorem process_of_nodup (hurl : (elements.map (·.pageUrl)).Nodup) {p : NavProcessor}
    (hp : p ∈ NavProcessor.process elements) :
    p.destMap.map Prod.snd = elements.map (·.destination) ∧ p.errors = [] := by
  unfold NavProcessor.process at hp
  split at hp
  · cases hp
  · obtain rfl := Option.some.inj hp
    rw [NavProcessor.handleDestination_of_nodup (by simpa using hurl)]
    simp

/-- The condition on the classes, in terms of what the processor emits. -/
theorem distinguished_iff :
    Distinguished elements ↔
      (∀ d ∈ elements.map (·.destination), d.destType ≠ none ∧ d.id ≠ 0) ∧
        (∀ d ∈ elements.map (·.destination), 0 ≤ d.id) ∧
        ((elements.map (·.destination)).map (·.id)).Nodup := by
  have htype : ∀ e : AnnotatedElement, e.destination.destType ≠ none ↔
      ∃ superClazzName ∈ e.typeElement.superClazzNames, ∃ t : PageType,
        Contains superClazzName t.name := by
    intro e
    rw [ne_eq, AnnotatedElement.destination, getDestinationType_eq_none_iff]
    push Not
    rfl
  have hzero : ∀ e : AnnotatedElement, e.destination.id ≠ 0 ↔ hashCode e.clazzName ≠ 0 :=
    fun e ↦ not_congr absInt_eq_zero_iff
  have hmin : ∀ e : AnnotatedElement, 0 ≤ e.destination.id ↔
      hashCode e.clazzName ≠ BitVec.intMin 32 := fun e ↦ absInt_nonneg_iff
  have hpair : ((elements.map (·.destination)).map (·.id)).Nodup ↔
      elements.Pairwise fun e e' ↦ hashCode e.clazzName ≠ hashCode e'.clazzName ∧
        hashCode e.clazzName ≠ -hashCode e'.clazzName := by
    rw [List.map_map, List.Nodup, List.pairwise_map]
    apply List.Pairwise.iff
    intro e e'
    exact (not_congr absInt_eq_iff).trans not_or
  simp only [List.forall_mem_map, htype, hzero, hmin, hpair]
  constructor
  · intro h
    exact ⟨fun e he ↦ ⟨h.classified e he, (h.proper e he).1⟩, fun e he ↦ (h.proper e he).2,
      h.distinct⟩
  · rintro ⟨hadd, hnonneg, hdistinct⟩
    exact ⟨fun e he ↦ (hadd e he).1, fun e he ↦ ⟨(hadd e he).2, hnonneg e he⟩, hdistinct⟩

/-- No destination is lost on the way exactly when the hash codes of the class names tell
them apart, all of them have proper hash codes, and all of them have a type. -/
theorem roundTrip_iff (hurl : (elements.map (·.pageUrl)).Nodup) :
    RoundTrip packageName elements ↔ Distinguished elements := by
  rw [distinguished_iff]
  constructor
  · intro h
    by_cases hnil : elements = []
    · simp [hnil]
    have hp : NavProcessor.handleDestination elements {} ∈ NavProcessor.process elements :=
      if_neg hnil
    obtain ⟨hvalues, -⟩ := process_of_nodup hurl hp
    obtain ⟨graph, hgraph, hnames, hnonneg⟩ := h _ hp _ (List.Perm.refl _)
    rw [hvalues] at hgraph
    have hbuilt := NavGraph.built_builderNavGraph hgraph
    have hlength : graph.mNodes.size = (elements.map (·.destination)).length := by
      simpa using hnames.length_eq
    refine ⟨NavGraph.exists_foldlM_iff.mp ⟨graph, hgraph⟩, ?_,
      NavGraph.nodup_of_length_eq hbuilt hlength⟩
    intro d hd
    obtain ⟨e, he, hkey⟩ := List.mem_map.mp ((hbuilt.keys d.id).mpr (List.mem_map_of_mem hd))
    rw [← hkey, ← hbuilt.ids e he]
    exact hnonneg e.2 (List.mem_map_of_mem he)
  · rintro ⟨hadd, hnonneg, hnodup⟩ p hp destinations hperm
    rw [(process_of_nodup hurl hp).1] at hperm
    obtain ⟨graph, hgraph⟩ := NavGraph.exists_foldlM_iff.mpr fun d hd ↦
      hadd d (hperm.mem_iff.mp hd)
    have hbuilt := NavGraph.built_builderNavGraph hgraph
    refine ⟨graph, hgraph, ?_, ?_⟩
    · have hids := (hperm.map (·.id)).nodup_iff.mpr hnodup
      have helements := hperm.map (·.clazzName)
      rw [List.map_map] at helements
      exact (hbuilt.names hids).trans helements
    · intro node hnode
      obtain ⟨e, he, rfl⟩ := List.mem_map.mp hnode
      obtain ⟨d, hd, hid⟩ := List.mem_map.mp ((hbuilt.keys e.1).mp (List.mem_map_of_mem he))
      rw [hbuilt.ids e he, ← hid]
      exact hnonneg d (hperm.mem_iff.mp hd)

end

/-- A class that extends `Fragment`. -/
def fragmentElement (clazzName pageUrl : String) (asStarter : Bool) : AnnotatedElement where
  typeElement := .extending clazzName "androidx.fragment.app.Fragment"
    (.extending "androidx.fragment.app.Fragment" "java.lang.Object" (.root "java.lang.Object"))
  pageUrl := pageUrl
  asStarter := asStarter

theorem classified_fragmentElement (clazzName pageUrl : String) (asStarter : Bool) :
    ∃ superClazzName ∈ (fragmentElement clazzName pageUrl asStarter).typeElement.superClazzNames,
      ∃ t : PageType, Contains superClazzName t.name :=
  ⟨"androidx.fragment.app.Fragment", List.mem_cons_self, .fragment, by decide⟩

/-- The pages that the app has. -/
def appPages : List AnnotatedElement :=
  [fragmentElement "com.hzp.hiapp.demo.navigation.ui.dashboard.DashboardFragment"
      "main/tabs/dashboard" false,
    fragmentElement "com.hzp.hiapp.demo.navigation.ui.home.HomeFragment" "main/tabs/home" true,
    fragmentElement "com.hzp.hiapp.demo.navigation.ui.notifications.NotificationsFragment"
      "main/tabs/notification" false]

example : appPages.map (·.destination.id) = [631651530, 917661218, 625677170] := by
  decide +kernel

theorem roundTrip_appPages : RoundTrip "com.hzp.hiapp" appPages := by
  refine (roundTrip_iff (by decide)).mpr ⟨?_, by decide +kernel, by decide +kernel⟩
  simp only [appPages, List.forall_mem_cons, classified_fragmentElement, List.not_mem_nil,
    false_imp_iff, implies_true, and_self]

/-- Two pages whose class names have the same hash code. -/
def twinPages : List AnnotatedElement :=
  [fragmentElement "com.hzp.hiapp.AaFragment" "main/tabs/aa" true,
    fragmentElement "com.hzp.hiapp.BBFragment" "main/tabs/bb" false]

/-- One of them is lost, although no error has been reported. -/
theorem not_roundTrip_twinPages :
    (twinPages.map (·.pageUrl)).Nodup ∧ (twinPages.map (·.clazzName)).Nodup ∧
      (NavProcessor.process twinPages).map (·.errors) = some [] ∧
      ¬ RoundTrip "com.hzp.hiapp" twinPages := by
  refine ⟨by decide, by decide, by decide +kernel, fun h ↦ ?_⟩
  obtain ⟨graph, hgraph, hnames, -⟩ := h (NavProcessor.handleDestination twinPages {}) rfl _
    (List.Perm.refl _)
  have hlength : graph.mNodes.size = 2 := by
    simpa [twinPages] using hnames.length_eq
  have hnodup := NavGraph.nodup_of_length_eq (NavGraph.built_builderNavGraph hgraph)
    (hlength.trans (by decide +kernel))
  exact absurd hnodup (by decide +kernel)

end HiApp.Navigation
