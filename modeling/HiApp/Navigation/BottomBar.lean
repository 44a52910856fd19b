import HiApp.Navigation.Forward
import HiApp.Navigation.NavUtil
import Mathlib.Data.List.Sort

/-!
# The bottom bar

The page builds its graph and its bottom bar from the same file.  The nodes of the graph go
by the ids of the destinations, the tabs of the bar by their urls, and a click on an item
navigates to the id that has been found for the url.
-/

namespace HiApp.Navigation

open Runs FragmentManager

/-- A tab of `main_tabs_config.json`. -/
structure Tab where
  enable : Bool
  index : ℤ
  pageUrl : String
  title : String

structure MenuItem where
  itemId : ℤ
  order : ℤ
  title : String
  deriving DecidableEq

/-- The body of the loop in `builderBottomBar`.  A bar has place for five items. -/
def addTab (destinations : List (String × Destination)) (menu : List MenuItem) (tab : Tab) :
    Option (List MenuItem) :=
  if tab.enable = false then some menu
  else
    match destinations.lookup tab.pageUrl with
    | none => some menu
    | some destination =>
        if menu.length < 5 then some (menu ++ [⟨destination.id, tab.index, tab.title⟩]) else none

def builderBottomBar (destinations : List (String × Destination)) (tabs : List Tab) :
    Option (List MenuItem) :=
  tabs.foldlM (addTab destinations) []

/-- The items in their order. -/
def displayed (menu : List MenuItem) : List MenuItem :=
  menu.insertionSort (·.order ≤ ·.order)

/-- The class names that the navigator reads from the nodes. -/
def NavGraph.classNames (packageName : String) (graph : NavGraph) : Graph where
  packageName
  className destId := (graph.mNodes.get destId).elim "" (·.page.className)

def Page.isFragment : Page → Bool
  | .activity _ _ => false
  | .fragment _ => true
  | .dialog _ => false

/-- `opened` are the activities that were started and the dialogs that were shown. -/
structure NavigationDemo where
  graph : NavGraph
  menu : List MenuItem
  navigator : HiFragmentNavigator := {}
  opened : List Page := []
  thrown : Bool := false

namespace NavigationDemo

inductive Action where
  | click (index : ℕ) (reuse : Option Fragment)
  | executeNext
  | setStateSaved (stateSaved : Bool)

variable (packageName : String)

/-- The node must exist.  A dialog is refused, like a fragment, once the state is saved; it is
gone before the bar is clicked again. -/
def navigate (s : NavigationDemo) (destId : ℤ) (reuse : Option Fragment) : NavigationDemo :=
  match s.graph.mNodes.get destId with
  | none => { s with thrown := true }
  | some node =>
      match node.page with
      | .activity _ _ => { s with opened := s.opened ++ [node.page] }
      | .fragment _ =>
          { s with
            navigator :=
              s.navigator.navigate (s.graph.classNames packageName) node.id false reuse }
      | .dialog _ =>
          if s.navigator.stateSaved then s else { s with opened := s.opened ++ [node.page] }

/-- It is `none` when it throws.  The controller goes to the start destination as soon as it
has the graph. -/
def onCreate (destinations : List Destination) (destMap : List (String × Destination))
    (tabs : List Tab) : Option NavigationDemo :=
  (NavGraph.builderNavGraph packageName destinations).toOption.bind fun graph ↦
    (graph.mNodes.get graph.startDestination).bind fun start ↦
      (builderBottomBar destMap tabs).map fun menu ↦
        navigate packageName { graph, menu } start.id none

def step (s : NavigationDemo) : Action → Option NavigationDemo
  | .click index reuse =>
      (displayed s.menu)[index]?.bind fun item ↦
        if s.navigator.Knows
            (simpleName ((s.graph.classNames packageName).resolve item.itemId)) reuse then
          some (s.navigate packageName item.itemId reuse)
        else none
  | .executeNext =>
      s.navigator.manager.executeNext.map fun manager ↦
        { s with navigator := { s.navigator with manager } }
  | .setStateSaved stateSaved => some { s with navigator := { s.navigator with stateSaved } }

/-- A fragment is asked for only while no other is on its way. -/
def Calm (s : NavigationDemo) : Action → Prop
  | .click index _ =>
      ∀ item ∈ (displayed s.menu)[index]?, ∀ node ∈ s.graph.mNodes.get item.itemId,
        node.page.isFragment = true → s.navigator.stateSaved = false → s.navigator.Calm
  | .executeNext => True
  | .setStateSaved _ => True

instance (s : NavigationDemo) (a : Action) : Decidable (s.Calm a) :=
  match a with
  | .click _ _ => inferInstanceAs (Decidable (∀ _ ∈ _, ∀ _ ∈ _, _ → _ → _))
  | .executeNext | .setStateSaved _ => isTrue trivial

/-- An item is clicked while nothing is queued. -/
def Idle (s : NavigationDemo) : Action → Prop
  | .click _ _ => s.navigator.manager.pending.isEmpty = true
  | .executeNext => True
  | .setStateSaved _ => True

instance (s : NavigationDemo) (a : Action) : Decidable (s.Idle a) :=
  match a with
  | .click _ _ => inferInstanceAs (Decidable (_ = true))
  | .executeNext | .setStateSaved _ => isTrue trivial

theorem calm_of_idle {s : NavigationDemo} {a : Action} (h : s.Idle a) : s.Calm a := by
  cases a with
  | click index reuse =>
      intro _ _ _ _ _ _ f hf
      have hsettled : s.navigator.manager.settled = s.navigator.manager.executed := by
        rw [Manager.settled, List.isEmpty_iff.mp h, List.foldl_nil]
      rwa [hsettled] at hf
  | executeNext => trivial
  | setStateSaved stateSaved => trivial

end NavigationDemo

/-! ### What is clicked and what is seen -/

/-- The annotated class that a tab is about. -/
def pageOf (elements : List AnnotatedElement) (tab : Tab) : Option AnnotatedElement :=
  if tab.enable then elements.find? fun e ↦ e.pageUrl = tab.pageUrl else none

/-- The tabs with a page, by their indices. -/
def barPages (elements : List AnnotatedElement) (tabs : List Tab) :
    List (Tab × AnnotatedElement) :=
  (tabs.filterMap fun tab ↦ (pageOf elements tab).map (Prod.mk tab)).insertionSort
    (·.1.index ≤ ·.1.index)

/-- The class that is shown, and what has been opened over it. -/
structure Screen where
  shown : Option String := none
  opened : List Page := []
  stateSaved : Bool := false
  deriving DecidableEq

namespace Screen

def visit (packageName : String) (screen : Screen) (e : AnnotatedElement) : Screen :=
  match getDestinationType e.typeElement with
  | none => screen
  | some .activity =>
      { screen with opened := screen.opened ++ [.activity packageName e.clazzName] }
  | some .fragment => if screen.stateSaved then screen else { screen with shown := e.clazzName }
  | some .dialog =>
      if screen.stateSaved then screen
      else { screen with opened := screen.opened ++ [.dialog e.clazzName] }

def act (packageName : String) (bar : List (Tab × AnnotatedElement)) (screen : Screen) :
    NavigationDemo.Action → Screen
  | .click index _ => bar[index]?.elim screen fun item ↦ screen.visit packageName item.2
  | .executeNext => screen
  | .setStateSaved stateSaved => { screen with stateSaved }

/-- From the start page on. -/
def after (packageName : String) (bar : List (Tab × AnnotatedElement)) (start : AnnotatedElement)
    (actions : List NavigationDemo.Action) : Screen :=
  actions.foldl (act packageName bar) (({} : Screen).visit packageName start)

end Screen

/-! ### The graph and the bar of the annotated classes -/

namespace NavGraph

variable {packageName : String} {graph graph' : NavGraph} {destination : Destination}
  {destinations l : List Destination}

theorem addNode_eq_ok (hadd : addNode packageName graph destination = .ok graph') :
    ∃ t, destination.destType = some t ∧
      graph' = ({ graph with
        mNodes := graph.mNodes.put destination.id (destination.node packageName t) } :
          NavGraph).setStarter destination := by
  cases htype : destination.destType with
  | none => simp [addNode, htype] at hadd
  | some t =>
      by_cases hid : destination.id = 0
      · simp [addNode, htype, addDestination, hid, Except.map] at hadd
      · simp only [addNode, htype, addDestination, id_node, if_neg hid, Except.map,
          Except.ok.injEq] at hadd
        exact ⟨t, rfl, hadd.symm⟩

/-- Every destination has its node, and the start is one of the starters. -/
structure Placed (packageName : String) (graph : NavGraph) (destinations : List Destination) :
    Prop where
  built : graph.Built destinations
  nodes : ∀ d ∈ destinations, ∃ t, d.destType = some t ∧
    graph.mNodes.get d.id = some (d.node packageName t)
  start : (∃ d ∈ destinations, d.asStarter = true) →
    ∃ d ∈ destinations, d.asStarter = true ∧ graph.startDestination = d.id

theorem Placed.addNode (h : graph.Placed packageName destinations)
    (hnew : destination.id ∉ destinations.map (·.id))
    (hadd : NavGraph.addNode packageName graph destination = .ok graph') :
    graph'.Placed packageName (destinations ++ [destination]) := by
  refine ⟨h.built.addNode hadd, ?_, ?_⟩
  · obtain ⟨t, htype, rfl⟩ := addNode_eq_ok hadd
    rw [← h.built.keys] at hnew
    intro d hd
    rw [mNodes_setStarter]
    rcases List.mem_append.mp hd with hd | hd
    · obtain ⟨t', htype', hget⟩ := h.nodes d hd
      refine ⟨t', htype', ?_⟩
      rw [SparseArray.get_eq_some_iff, SparseArray.mem_entries_put hnew]
      exact .inr (SparseArray.get_eq_some_iff.mp hget)
    · obtain rfl := List.mem_singleton.mp hd
      refine ⟨t, htype, ?_⟩
      rw [SparseArray.get_eq_some_iff, SparseArray.mem_entries_put hnew]
      exact .inl rfl
  · obtain ⟨t, -, rfl⟩ := addNode_eq_ok hadd
    rintro ⟨d, hd, hstarter⟩
    by_cases hlast : destination.asStarter = true
    · exact ⟨destination, by simp, hlast, by simp [setStarter, hlast]⟩
    · rcases List.mem_append.mp hd with hd | hd
      · obtain ⟨d', hd', hstarter', hstart⟩ := h.start ⟨d, hd, hstarter⟩
        exact ⟨d', List.mem_append_left _ hd', hstarter', by simp [setStarter, hlast, hstart]⟩
      · exact absurd (List.mem_singleton.mp hd ▸ hstarter) hlast

theorem Placed.foldlM (h : graph.Placed packageName destinations)
    (hnodup : ((destinations ++ l).map (·.id)).Nodup)
    (hfold : l.foldlM (NavGraph.addNode packageName) graph = .ok graph') :
    graph'.Placed packageName (destinations ++ l) := by
  induction l generalizing graph destinations with
  | nil =>
      obtain rfl : graph = graph' := Except.ok.inj hfold
      simpa using h
  | cons d l ih =>
      cases hadd : NavGraph.addNode packageName graph d with
      | error thrown => simp [List.foldlM_cons, hadd, bind, Except.bind] at hfold
      | ok graph₁ =>
          rw [List.foldlM_cons, hadd] at hfold
          have hnew : d.id ∉ destinations.map (·.id) := by
            rw [List.map_append, List.nodup_append] at hnodup
            exact fun hmem ↦ hnodup.2.2 _ hmem _ (by simp) rfl
          have htail : ((destinations ++ [d] ++ l).map (·.id)).Nodup := by
            simpa using hnodup
          simpa using ih (h.addNode hnew hadd) htail hfold

theorem placed_builderNavGraph (hnodup : (l.map (·.id)).Nodup)
    (hgraph : builderNavGraph packageName l = .ok graph) : graph.Placed packageName l := by
  have hnil : builderNavGraph packageName [] = .ok {} := rfl
  have hempty : ({} : NavGraph).Placed packageName [] :=
    ⟨built_builderNavGraph hnil, by simp, by simp⟩
  exact hempty.foldlM hnodup hgraph

end NavGraph

def menuItem (item : Tab × AnnotatedElement) : MenuItem :=
  ⟨item.2.destination.id, item.1.index, item.1.title⟩

section

variable {packageName : String} {elements : List AnnotatedElement} {tabs : List Tab}

theorem lookup_destMap (elements : List AnnotatedElement) (url : String) :
    (elements.map fun e ↦ (e.pageUrl, e.destination)).lookup url =
      (elements.find? fun e ↦ e.pageUrl = url).map (·.destination) := by
  induction elements with
  | nil => rfl
  | cons e elements ih =>
      by_cases hurl : e.pageUrl = url
      · simp [hurl]
      · have hne : (url == e.pageUrl) = false := by
          simpa using Ne.symm hurl
        simp [List.lookup_cons, hne, hurl, ih]

theorem foldlM_addTab {menu : List MenuItem}
    (hlength : menu.length +
      (tabs.filterMap fun tab ↦ (pageOf elements tab).map (Prod.mk tab)).length ≤ 5) :
    tabs.foldlM (addTab (elements.map fun e ↦ (e.pageUrl, e.destination))) menu =
      some (menu ++
        (tabs.filterMap fun tab ↦ (pageOf elements tab).map (Prod.mk tab)).map menuItem) := by
  induction tabs generalizing menu with
  | nil => simp
  | cons tab tabs ih =>
      rw [List.foldlM_cons]
      cases hpage : pageOf elements tab with
      | none =>
          have hadd : addTab (elements.map fun e ↦ (e.pageUrl, e.destination)) menu tab =
              some menu := by
            cases henable : tab.enable with
            | false => simp [addTab, henable]
            | true =>
                have hfind : (elements.find? fun e ↦ e.pageUrl = tab.pageUrl) = none := by
                  simpa [pageOf, henable] using hpage
                simp [addTab, henable, lookup_destMap, hfind]
          simp only [List.filterMap_cons, hpage, Option.map_none] at hlength ⊢
          rw [hadd]
          exact ih hlength
      | some e =>
          simp only [List.filterMap_cons, hpage, Option.map_some, List.length_cons] at hlength ⊢
          have hadd : addTab (elements.map fun e ↦ (e.pageUrl, e.destination)) menu tab =
              some (menu ++ [menuItem (tab, e)]) := by
            cases henable : tab.enable with
            | false => simp [pageOf, henable] at hpage
            | true =>
                have hfind : (elements.find? fun e ↦ e.pageUrl = tab.pageUrl) = some e := by
                  simpa [pageOf, henable] using hpage
                have hlt : menu.length < 5 := by omega
                simp [addTab, henable, lookup_destMap, hfind, hlt, menuItem]
          rw [hadd]
          have hrest := @ih (menu ++ [menuItem (tab, e)]) (by simp; omega)
          simpa using hrest

theorem displayed_map (l : List (Tab × AnnotatedElement)) :
    displayed (l.map menuItem) = (l.insertionSort (·.1.index ≤ ·.1.index)).map menuItem :=
  (List.map_insertionSort _ _ menuItem l fun _ _ _ _ ↦ Iff.rfl).symm

theorem mem_of_mem_barPages {item : Tab × AnnotatedElement} (h : item ∈ barPages elements tabs) :
    item.2 ∈ elements := by
  obtain ⟨tab, -, hpage⟩ := List.mem_filterMap.mp ((List.mem_insertionSort _).mp h)
  obtain ⟨e, he, rfl⟩ := Option.map_eq_some_iff.mp hpage
  unfold pageOf at he
  split at he
  · exact List.mem_of_find?_eq_some he
  · cases he

end

/-- Qualified names do not begin with a dot, and fragments differ in their simple names. -/
structure WellNamed (elements : List AnnotatedElement) : Prop where
  qualified : ∀ e ∈ elements, e.clazzName.toList.head? ≠ some '.'
  distinct : ∀ e ∈ elements, ∀ e' ∈ elements, getDestinationType e.typeElement = some .fragment →
    getDestinationType e'.typeElement = some .fragment →
    simpleName e.clazzName = simpleName e'.clazzName → e.clazzName = e'.clazzName

def fragmentIds (elements : List AnnotatedElement) : Set ℤ :=
  {id | ∃ e ∈ elements, getDestinationType e.typeElement = some .fragment ∧ e.destination.id = id}

/-- The graph and the menu are those of the annotated classes. -/
structure SetUp (packageName : String) (elements : List AnnotatedElement) (tabs : List Tab)
    (graph : NavGraph) (menu : List MenuItem) : Prop where
  wellNamed : WellNamed elements
  named : ∀ e ∈ elements, e.clazzName ≠ ""
  nodes : ∀ e ∈ elements, ∃ t, getDestinationType e.typeElement = some t ∧
    graph.mNodes.get e.destination.id = some (e.destination.node packageName t)
  items : displayed menu = (barPages elements tabs).map menuItem

namespace SetUp

variable {packageName : String} {elements : List AnnotatedElement} {tabs : List Tab}
  {graph : NavGraph} {menu : List MenuItem} {e : AnnotatedElement}

theorem className_eq (h : SetUp packageName elements tabs graph menu) (he : e ∈ elements) :
    (graph.classNames packageName).className e.destination.id = e.clazzName := by
  obtain ⟨t, -, hget⟩ := h.nodes e he
  calc
    (graph.classNames packageName).className e.destination.id =
        (graph.mNodes.get e.destination.id).elim "" (·.page.className) := rfl
    _ = (e.destination.node packageName t).page.className := by
      rw [hget, Option.elim_some]
    _ = e.clazzName := NavGraph.className_node t

theorem resolve_eq (h : SetUp packageName elements tabs graph menu) (he : e ∈ elements) :
    (graph.classNames packageName).resolve e.destination.id = e.clazzName := by
  rw [Graph.resolve, h.className_eq he, if_neg (h.wellNamed.qualified e he)]

theorem tagged (h : SetUp packageName elements tabs graph menu) :
    HiFragmentNavigator.Tagged (graph.classNames packageName) (fragmentIds elements) where
  named := by
    rintro _ ⟨e, he, -, rfl⟩
    rw [h.className_eq he]
    exact h.named e he
  distinct := by
    rintro _ ⟨e, he, htype, rfl⟩ _ ⟨e', he', htype', rfl⟩
    rw [h.resolve_eq he, h.resolve_eq he']
    exact h.wellNamed.distinct e he e' he' htype htype'

end SetUp

namespace NavigationDemo

section

variable {packageName : String} {elements : List AnnotatedElement} {tabs : List Tab}
  {graph : NavGraph} {menu : List MenuItem} {e : AnnotatedElement} {s t : NavigationDemo}
  {screen : Screen} {a : Action}

/-- What the activity keeps, whatever is clicked. -/
structure Reflects (packageName : String) (elements : List AnnotatedElement) (graph : NavGraph)
    (menu : List MenuItem) (screen : Screen) (s : NavigationDemo) : Prop where
  graph_eq : s.graph = graph
  menu_eq : s.menu = menu
  thrown : s.thrown = false
  opened : s.opened = screen.opened
  stateSaved : s.navigator.stateSaved = screen.stateSaved
  shown : s.navigator.mBackStack.head?.map (graph.classNames packageName).resolve = screen.shown
  forward : s.navigator.Forward (graph.classNames packageName) (fragmentIds elements)

/-- One fragment of the class is visible, and no class has two. -/
structure Displays (s : NavigationDemo) (screen : Screen) : Prop where
  crashed : s.navigator.manager.settled.container.crashed = false
  visible : ∀ c ∈ screen.shown, ∃ x : Fragment, x.className = c ∧
    ∀ g, s.navigator.manager.settled.container.Visible g ↔ g = x
  once : (s.navigator.manager.settled.container.added.map (·.className)).Nodup

namespace Reflects

theorem displays_iff (h : Reflects packageName elements graph menu screen s) :
    s.Displays screen ↔ s.navigator.ShowsOneTop (graph.classNames packageName) := by
  have hvisible : (∀ c ∈ screen.shown, ∃ x : Fragment, x.className = c ∧
      ∀ g, s.navigator.manager.settled.container.Visible g ↔ g = x) ↔
      ∀ top ∈ s.navigator.mBackStack.head?, ∃ x : Fragment,
        x.className = (graph.classNames packageName).resolve top ∧
          ∀ g, s.navigator.manager.settled.container.Visible g ↔ g = x := by
    rw [← h.shown]
    simp
  constructor
  · intro hd
    exact ⟨⟨hd.crashed, hvisible.mp hd.visible⟩, hd.once⟩
  · intro hs
    exact ⟨hs.showsTop.crashed, hvisible.mpr hs.showsTop.visible, hs.once⟩

/-- Where the id of a class leads to. -/
theorem navigate (h : Reflects packageName elements graph menu screen s)
    (hsetUp : SetUp packageName elements tabs graph menu) (he : e ∈ elements) :
    Reflects packageName elements graph menu (screen.visit packageName e)
      (s.navigate packageName e.destination.id none) := by
  obtain ⟨t, htype, hget⟩ := hsetUp.nodes e he
  obtain ⟨rfl, rfl, hthrown, hopened, hsaved, hshown, hforward⟩ := h
  cases t with
  | activity =>
      have hnavigate : s.navigate packageName e.destination.id none =
          { s with opened := s.opened ++ [.activity packageName e.clazzName] } := by
        rw [NavigationDemo.navigate, hget]
        rfl
      rw [hnavigate, Screen.visit, htype]
      exact ⟨rfl, rfl, hthrown, congrArg (· ++ _) hopened, hsaved, hshown, hforward⟩
  | dialog =>
      have hnavigate : s.navigate packageName e.destination.id none =
          if screen.stateSaved then s
          else { s with opened := s.opened ++ [.dialog e.clazzName] } := by
        rw [NavigationDemo.navigate, hget, ← hsaved]
        rfl
      rw [hnavigate, Screen.visit, htype]
      dsimp only
      by_cases hsave : screen.stateSaved = true
      · rw [if_pos hsave, if_pos hsave]
        exact ⟨rfl, rfl, hthrown, hopened, hsaved, hshown, hforward⟩
      · rw [if_neg hsave, if_neg hsave]
        exact ⟨rfl, rfl, hthrown, congrArg (· ++ _) hopened, hsaved, hshown, hforward⟩
  | fragment =>
      have hid : e.destination.id ∈ fragmentIds elements := ⟨e, he, htype, rfl⟩
      have hnavigate : s.navigate packageName e.destination.id none =
          { s with
            navigator :=
              s.navigator.navigate (s.graph.classNames packageName) e.destination.id false
                none } := by
        rw [NavigationDemo.navigate, hget]
        rfl
      have hnext := hforward.navigate hsetUp.tagged hid
      rw [hnavigate, Screen.visit, htype]
      dsimp only
      by_cases hsave : screen.stateSaved = true
      · have hignored := hsaved.trans hsave
        rw [if_pos hsave, HiFragmentNavigator.navigate_of_ignored false none (.inl hignored)]
        exact ⟨rfl, rfl, hthrown, hopened, hsaved, hshown, hforward⟩
      · rw [if_neg hsave]
        have hname : ¬ (s.navigator.stateSaved = true ∨
            (s.graph.classNames packageName).className e.destination.id = "") := by
          rw [hsetUp.className_eq he]
          exact not_or.mpr ⟨hsaved ▸ hsave, hsetUp.named e he⟩
        obtain ⟨name, heq⟩ := HiFragmentNavigator.navigate_eq none hname
        refine ⟨rfl, rfl, hthrown, hopened, ?_, ?_, hnext⟩
        · rw [heq]
          exact hsaved
        · rw [heq]
          exact congrArg some (hsetUp.resolve_eq he)

/-- A click is a visit of the class that the item is about. -/
theorem exists_of_click (h : Reflects packageName elements graph menu screen s)
    (hsetUp : SetUp packageName elements tabs graph menu) {index : ℕ} {reuse : Option Fragment}
    (hstep : s.step packageName (.click index reuse) = some t) :
    ∃ item ∈ (barPages elements tabs)[index]?, item.2 ∈ elements ∧
      (displayed s.menu)[index]? = some (menuItem item) ∧
      t = s.navigate packageName item.2.destination.id none := by
  obtain ⟨menuItem', hmenuItem, hclick⟩ := Option.bind_eq_some_iff.mp hstep
  have hitems := hmenuItem
  rw [h.menu_eq, hsetUp.items, List.getElem?_map, Option.map_eq_some_iff] at hitems
  obtain ⟨item, hitem, rfl⟩ := hitems
  obtain ⟨hknows, hnavigate⟩ := Option.ite_none_right_eq_some.mp hclick
  obtain rfl := h.forward.reuse_eq_none hknows
  exact ⟨item, hitem, mem_of_mem_barPages (List.mem_of_getElem? hitem), hmenuItem,
    (Option.some.inj hnavigate).symm⟩

theorem step (h : Reflects packageName elements graph menu screen s)
    (hsetUp : SetUp packageName elements tabs graph menu)
    (hstep : s.step packageName a = some t) :
    Reflects packageName elements graph menu
      (screen.act packageName (barPages elements tabs) a) t := by
  cases a with
  | click index reuse =>
      obtain ⟨item, hitem, hmem, -, rfl⟩ := h.exists_of_click hsetUp hstep
      rw [Screen.act, Option.mem_def.mp hitem, Option.elim_some]
      exact h.navigate hsetUp hmem
  | executeNext =>
      obtain ⟨manager, hnext, rfl⟩ := Option.map_eq_some_iff.mp hstep
      exact ⟨h.graph_eq, h.menu_eq, h.thrown, h.opened, h.stateSaved, h.shown,
        h.forward.executeNext hnext⟩
  | setStateSaved stateSaved =>
      obtain rfl := Option.some.inj hstep
      exact ⟨h.graph_eq, h.menu_eq, h.thrown, h.opened, rfl, h.shown,
        h.forward.setStateSaved stateSaved⟩

theorem showsOneTop_navigate (h : Reflects packageName elements graph menu screen s)
    (hsetUp : SetUp packageName elements tabs graph menu) (he : e ∈ elements)
    (hshows : s.navigator.ShowsOneTop (graph.classNames packageName)) :
    (s.navigate packageName e.destination.id none).navigator.ShowsOneTop
        (graph.classNames packageName) ↔
      ∀ node ∈ s.graph.mNodes.get e.destination.id, node.page.isFragment = true →
        s.navigator.stateSaved = false → s.navigator.Calm := by
  obtain ⟨t, htype, hget⟩ := hsetUp.nodes e he
  rw [← h.graph_eq] at hget hshows ⊢
  rw [NavigationDemo.navigate, hget]
  simp only [Option.mem_def, Option.some.injEq, forall_eq']
  cases t with
  | activity => exact iff_of_true hshows fun hfragment ↦ absurd hfragment Bool.false_ne_true
  | dialog =>
      refine iff_of_true ?_ fun hfragment ↦ absurd hfragment Bool.false_ne_true
      dsimp only [Destination.node]
      split
      · exact hshows
      · exact hshows
  | fragment =>
      have hid : e.destination.id ∈ fragmentIds elements := ⟨e, he, htype, rfl⟩
      have hforward := h.forward
      have htagged := hsetUp.tagged
      rw [← h.graph_eq] at hforward htagged
      have hfragment : (e.destination.node packageName .fragment).page.isFragment = true := rfl
      rw [forall_prop_of_true hfragment]
      exact hforward.showsOneTop_navigate htagged hid hshows

theorem showsOneTop_step (h : Reflects packageName elements graph menu screen s)
    (hsetUp : SetUp packageName elements tabs graph menu)
    (hshows : s.navigator.ShowsOneTop (graph.classNames packageName))
    (hstep : s.step packageName a = some t) :
    t.navigator.ShowsOneTop (graph.classNames packageName) ↔ s.Calm a := by
  cases a with
  | click index reuse =>
      obtain ⟨item, -, hmem, hdisplayed, rfl⟩ := h.exists_of_click hsetUp hstep
      rw [h.showsOneTop_navigate hsetUp hmem hshows, Calm, hdisplayed]
      simp only [Option.mem_def, Option.some.injEq, forall_eq']
      rfl
  | executeNext =>
      obtain ⟨manager, hnext, rfl⟩ := Option.map_eq_some_iff.mp hstep
      exact iff_of_true (hshows.of_settled (Manager.settled_executeNext hnext) rfl) trivial
  | setStateSaved stateSaved =>
      obtain rfl := Option.some.inj hstep
      exact iff_of_true (hshows.of_settled rfl rfl) trivial

end Reflects

theorem destMap_of_nodup (hurl : (elements.map (·.pageUrl)).Nodup) {p : NavProcessor}
    (hp : p ∈ NavProcessor.process elements) :
    p.destMap = elements.map fun e ↦ (e.pageUrl, e.destination) := by
  obtain ⟨-, hp⟩ := Option.ite_none_left_eq_some.mp hp
  obtain rfl := Option.some.inj hp
  rw [NavProcessor.handleDestination_of_nodup (by simpa using hurl), List.nil_append]

theorem setUp_of_distinguished (hids : Distinguished elements) (hnamed : WellNamed elements)
    (htabs : (barPages elements tabs).length ≤ 5) {destinations : List Destination}
    (hperm : destinations.Perm (elements.map (·.destination))) :
    ∃ graph menu, NavGraph.builderNavGraph packageName destinations = .ok graph ∧
      graph.Placed packageName destinations ∧
      builderBottomBar (elements.map fun e ↦ (e.pageUrl, e.destination)) tabs = some menu ∧
      SetUp packageName elements tabs graph menu := by
  obtain ⟨hadd, -, hnodup⟩ := distinguished_iff.mp hids
  obtain ⟨graph, hgraph⟩ := NavGraph.exists_foldlM_iff.mpr fun d hd ↦
    hadd d (hperm.mem_iff.mp hd)
  have hplaced := NavGraph.placed_builderNavGraph ((hperm.map (·.id)).nodup_iff.mpr hnodup) hgraph
  rw [barPages, List.length_insertionSort] at htabs
  refine ⟨graph, _, hgraph, hplaced, foldlM_addTab (by simpa using htabs), hnamed, ?_, ?_, ?_⟩
  · intro e he hempty
    refine (hids.proper e he).1 ?_
    rw [hempty]
    rfl
  · intro e he
    exact hplaced.nodes e.destination (hperm.mem_iff.mpr (List.mem_map_of_mem he))
  · exact displayed_map _

end

end NavigationDemo

/-- The tabs that the app has. -/
def appTabs : List Tab :=
  [⟨true, 0, "main/tabs/home", "Home"⟩, ⟨true, 1, "main/tabs/dashboard", "Dashboard"⟩,
    ⟨true, 2, "main/tabs/notification", "Notification"⟩]

/-- What `destination.json` has about the pages of the app. -/
def appDestinations : List Destination :=
  [⟨"main/tabs/dashboard", 631651530, false, some .fragment,
      "com.hzp.hiapp.demo.navigation.ui.dashboard.DashboardFragment"⟩,
    ⟨"main/tabs/home", 917661218, true, some .fragment,
      "com.hzp.hiapp.demo.navigation.ui.home.HomeFragment"⟩,
    ⟨"main/tabs/notification", 625677170, false, some .fragment,
      "com.hzp.hiapp.demo.navigation.ui.notifications.NotificationsFragment"⟩]

theorem destination_appPages : appPages.map (·.destination) = appDestinations := by
  decide +kernel

theorem distinguished_appPages : Distinguished appPages := by
  rw [distinguished_iff, destination_appPages]
  decide

theorem wellNamed_appPages : WellNamed appPages :=
  ⟨by decide, by decide +kernel⟩

namespace NavigationDemo

def appClicks : List Action :=
  [.executeNext, .click 1 none, .executeNext, .click 0 none, .executeNext, .click 2 none,
    .executeNext]

end NavigationDemo

end HiApp.Navigation
