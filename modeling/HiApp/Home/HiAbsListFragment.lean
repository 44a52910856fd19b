import HiApp.Adapter.HiAdapter
import HiApp.Adapter.HiRecyclerView
import HiApp.Refresh.HiRefreshLayout
import HiApp.Restful.Request

/-!
# Pages that show a list

`HiAbsListFragment` asks for pages of items and shows them in one list, with a view for the
time before the first reply and one for an empty list.  `GoodsListFragment` and
`HomeTabFragment` say what is asked for and what a reply has to show.
-/

namespace HiApp.Home

open Runs Adapter Refresh Restful

/-- A call of the interface; that of the goods has no strategy of its own. -/
structure ListRequest where
  cacheStrategy : ℤ := CacheStrategy.netOnly
  pageIndex : ℤ
  deriving DecidableEq

/-- `refreshState` is that of the header view, `refreshFinished` counts the calls of that name
on the layout and `posted` the runnables that will make one.  A view is `true` when it is to be
seen. -/
structure HiAbsListFragment (ι : Type*) where
  created : Bool := false
  pageIndex : ℤ := 1
  hiAdapter : HiAdapter ι Empty := {}
  recyclerView : HiRecyclerView := {}
  loadingView : Bool := false
  emptyView : Bool := false
  refreshState : HiRefreshState := .init
  refreshFinished : ℕ := 0
  posted : ℕ := 0
  requests : List ListRequest := []

namespace HiAbsListFragment

def PREFETCH_SIZE : ℤ := 5

variable {ι : Type*}

def onViewCreated (s : HiAbsListFragment ι) : HiAbsListFragment ι :=
  { s with
    created := true
    hiAdapter := {}
    recyclerView := { hasHiAdapter := true }
    emptyView := false
    loadingView := true
    refreshState := .init
    pageIndex := 1 }

/-- `dataItems` is null where a reply has failed. -/
def finishRefresh (dataItems : Option (List ι)) (s : HiAbsListFragment ι) :
    HiAbsListFragment ι :=
  let items := dataItems.getD []
  let success := items ≠ []
  if s.pageIndex = 1 then
    let s := { s with loadingView := false, refreshFinished := s.refreshFinished + 1 }
    if success then
      { s with emptyView := false, hiAdapter := (s.hiAdapter.clearItems.1.addItems items true).1 }
    else if s.hiAdapter.getItemCount ≤ 0 then { s with emptyView := true }
    else s
  else
    let s := if success then { s with hiAdapter := (s.hiAdapter.addItems items true).1 } else s
    { s with recyclerView := s.recyclerView.loadFinished success }

def enableLoadMore (s : HiAbsListFragment ι) : HiAbsListFragment ι :=
  { s with recyclerView := s.recyclerView.enableLoadMore PREFETCH_SIZE }

/-- What the scroll listener calls for the next page. -/
def loadMore (callback : HiAbsListFragment ι → HiAbsListFragment ι) (s : HiAbsListFragment ι) :
    HiAbsListFragment ι :=
  if s.refreshState = .refresh then
    { s with recyclerView := s.recyclerView.loadFinished false }
  else callback { s with pageIndex := increment s.pageIndex }

def onScrollStateChanged (callback : HiAbsListFragment ι → HiAbsListFragment ι)
    (event : ScrollEvent) (s : HiAbsListFragment ι) : HiAbsListFragment ι :=
  let recyclerView := s.recyclerView.dispatchOnScrollStateChanged event
  (loadMore callback)^[recyclerView.calls - s.recyclerView.calls] { s with recyclerView }

def onRefresh (s : HiAbsListFragment ι) : HiAbsListFragment ι :=
  if s.recyclerView.isLoadingMore then { s with posted := s.posted + 1 }
  else { s with pageIndex := 1 }

def enqueue (cacheStrategy : ℤ) (s : HiAbsListFragment ι) : HiAbsListFragment ι :=
  { s with requests := s.requests ++ [{ cacheStrategy, pageIndex := s.pageIndex }] }

end HiAbsListFragment

/-- What a list page overrides.  The callback is the one given to `enableLoadMore`, and a reply
`ρ` of the interface may reach `finishRefresh`, with the items or with null. -/
structure ListFragment (ι ρ : Type*) where
  onViewCreated : HiAbsListFragment ι → HiAbsListFragment ι
  onRefresh : HiAbsListFragment ι → HiAbsListFragment ι
  callback : HiAbsListFragment ι → HiAbsListFragment ι
  finishes : ρ → Option (Option (List ι))

/-- How the interface answers. -/
inductive Reply (V : Type*) where
  | onSuccess (response : HiResponse V)
  | onFailed
  deriving DecidableEq

def Reply.data {V : Type*} : Reply V → Option V
  | .onSuccess response => if response.successful then response.data else none
  | .onFailed => none

namespace GoodsListFragment

variable {γ : Type*}

def loadData (s : HiAbsListFragment (γ × Bool)) : HiAbsListFragment (γ × Bool) :=
  s.enqueue CacheStrategy.netOnly

/-- The items of the goods, none of them on the hot tab. -/
def onQueryCategoryGoodsList (list : List γ) : List (γ × Bool) := list.map (·, false)

def fragment : ListFragment (γ × Bool) (Reply (List γ)) where
  onViewCreated s := loadData s.onViewCreated.enableLoadMore
  onRefresh s := loadData s.onRefresh
  callback := loadData
  finishes reply := some (reply.data.map onQueryCategoryGoodsList)

end GoodsListFragment

namespace HomeTabFragment

variable {β σ γ : Type*}

structure HomeModel (β σ γ : Type*) where
  bannerList : Option (List β)
  subcategoryList : Option (List σ)
  goodsList : Option (List γ)
  deriving DecidableEq

inductive HomeItem (β σ γ : Type*) where
  | bannerItem (bannerList : List β)
  | gridItem (subcategoryList : List σ)
  | goodsItem (goodsModel : γ) (hotTab : Bool)
  deriving DecidableEq

def queryTabCategoryList (cacheStrategy : ℤ) (s : HiAbsListFragment (HomeItem β σ γ)) :
    HiAbsListFragment (HomeItem β σ γ) :=
  s.enqueue cacheStrategy

def DEFAULT_HOT_TAB_CATEGORY_ID : String := "1"

def dataItems (categoryId : String) (data : HomeModel β σ γ) : List (HomeItem β σ γ) :=
  data.bannerList.toList.map .bannerItem ++ data.subcategoryList.toList.map .gridItem ++
    (data.goodsList.getD []).map (.goodsItem · (categoryId = DEFAULT_HOT_TAB_CATEGORY_ID))

/-- With a reply comes whether the host is alive, which is asked only when there is data. -/
def fragment (categoryId : String) :
    ListFragment (HomeItem β σ γ) (Reply (HomeModel β σ γ) × Bool) where
  onViewCreated s :=
    (queryTabCategoryList CacheStrategy.cacheFirst s.onViewCreated).enableLoadMore
  onRefresh s := queryTabCategoryList CacheStrategy.netCache s.onRefresh
  callback := queryTabCategoryList CacheStrategy.netOnly
  finishes reply :=
    match reply.1.data with
    | some data => if reply.2 then some (some (dataItems categoryId data)) else none
    | none => some none

end HomeTabFragment

namespace ListFragment

variable {ι ρ : Type*}

/-- `onRefresh` is called by the layout and by the button of the empty view.  A request may be
answered more than once, first from the cache, and at any time. -/
inductive Action (ρ : Type*) where
  | onViewCreated
  | onRefresh
  | reply (request : ListRequest) (answer : ρ)
  | scroll (event : ScrollEvent)
  | layout
  | runPost
  | header (refreshState : HiRefreshState)
  deriving DecidableEq

def step (fragment : ListFragment ι ρ) (s : HiAbsListFragment ι) :
    Action ρ → Option (HiAbsListFragment ι)
  | .onViewCreated => some (fragment.onViewCreated s)
  | .onRefresh => if s.created then some (fragment.onRefresh s) else none
  | .reply request answer =>
      if request ∈ s.requests then
        some ((fragment.finishes answer).elim s fun dataItems ↦ s.finishRefresh dataItems)
      else none
  | .scroll event => some (s.onScrollStateChanged fragment.callback event)
  | .layout => some { s with recyclerView := s.recyclerView.layout }
  | .runPost => (s.recyclerView.step .runPost).map fun recyclerView ↦ { s with recyclerView }
  | .header refreshState => some { s with refreshState }

/-! ### What a list page is for -/

inductive Shown (ι : Type*) where
  | nothing
  | loading
  | empty
  | items (dataItems : List ι)
  deriving DecidableEq

namespace Shown

def dataItems : Shown ι → List ι
  | .items dataItems => dataItems
  | _ => []

/-- Items stay until there are others. -/
def finish (dataItems : Option (List ι)) (shown : Shown ι) : Shown ι :=
  if dataItems.getD [] ≠ [] then .items (dataItems.getD [])
  else if shown.dataItems = [] then .empty
  else shown

end Shown

/-- What a page shows after the calls and replies of a run. -/
def shown (fragment : ListFragment ι ρ) : List (Action ρ) → Shown ι :=
  List.foldl (fun shown action ↦
    match action with
    | .onViewCreated => .loading
    | .reply _ answer => (fragment.finishes answer).elim shown (Shown.finish · shown)
    | _ => shown) .nothing

/-- Whether a call asks for a page. -/
def Action.asks : Action ρ → Bool
  | .onViewCreated => true
  | .onRefresh => true
  | _ => false

/-- Whether a reply comes to its end. -/
def Action.finished (fragment : ListFragment ι ρ) : Action ρ → Bool
  | .reply _ answer => (fragment.finishes answer).isSome
  | _ => false

/-- Just one of the three views is to be seen. -/
structure Displays (s : HiAbsListFragment ι) (shown : Shown ι) : Prop where
  loadingView : s.loadingView = true ↔ shown = .loading
  emptyView : s.emptyView = true ↔ shown = .empty
  dataSets : s.hiAdapter.dataSets = shown.dataItems
  items : ∀ dataItems, shown = .items dataItems → dataItems ≠ []

/-- The view has no listener, and does not wait for a page. -/
structure Idle (view : HiRecyclerView) : Prop where
  notInstalled : view.NotInstalled
  isLoadingMore : view.isLoadingMore = false

/-- What is to be seen of a page after a run: every request was for the first page, one for
each time that the page was made or refreshed, and each of the replies has ended a refresh. -/
structure Follows (fragment : ListFragment ι ρ) (actions : List (Action ρ))
    (s : HiAbsListFragment ι) : Prop where
  pageIndex : s.pageIndex = 1
  firstPage : ∀ request ∈ s.requests, request.pageIndex = 1
  requests : s.requests.length = actions.countP Action.asks
  refreshFinished : s.refreshFinished = actions.countP (Action.finished fragment)
  posted : s.posted = 0
  displays : Displays s (fragment.shown actions)
  idle : Idle s.recyclerView

/-! ### The list is never loading more -/

theorem idle_new : Idle { hasHiAdapter := true } := ⟨⟨rfl, rfl, rfl⟩, rfl⟩

namespace Idle

variable {view : HiRecyclerView}

theorem enableLoadMore (hidle : Idle view) (prefetchSize : ℤ) :
    Idle (view.enableLoadMore prefetchSize) := by
  refine ⟨(hidle.notInstalled.enableLoadMore prefetchSize).1, ?_⟩
  unfold HiRecyclerView.enableLoadMore
  split
  · simp only [(HiRecyclerView.SameLoad.removeFooterView view).loadMoreScrollListener,
      hidle.notInstalled.loadMoreScrollListener]
    exact hidle.isLoadingMore
  · exact hidle.isLoadingMore

theorem of_sameLoad {view' : HiRecyclerView} (hidle : Idle view) (hsame : view.SameLoad view') :
    Idle view' :=
  ⟨hidle.notInstalled.of_sameLoad hsame, hsame.isLoadingMore.trans hidle.isLoadingMore⟩

/-- A change of the scroll state finds no listener. -/
theorem dispatch (hidle : Idle view) (event : ScrollEvent) :
    view.dispatchOnScrollStateChanged event = view := by
  rw [HiRecyclerView.dispatchOnScrollStateChanged, hidle.notInstalled.scrollListeners,
    List.foldr_nil]

end Idle

/-! ### One step -/

/-- The page of `s` is asked for, and nothing else is done to what is shown. -/
def Asks (s s' : HiAbsListFragment ι) : Prop :=
  ∃ cacheStrategy recyclerView, (Idle s.recyclerView → Idle recyclerView) ∧
    s' = { s with
      recyclerView
      requests := s.requests ++ [{ cacheStrategy, pageIndex := s.pageIndex }] }

/-- What the pages have in common. -/
structure Regular (fragment : ListFragment ι ρ) : Prop where
  onViewCreated : ∀ s, Asks s.onViewCreated (fragment.onViewCreated s)
  onRefresh : ∀ s, Asks s.onRefresh (fragment.onRefresh s)

theorem regular_goodsListFragment {γ : Type*} : Regular (GoodsListFragment.fragment (γ := γ)) where
  onViewCreated _ := ⟨CacheStrategy.netOnly, _, fun h ↦ h.enableLoadMore _, rfl⟩
  onRefresh _ := ⟨CacheStrategy.netOnly, _, id, rfl⟩

theorem regular_homeTabFragment {β σ γ : Type*} (categoryId : String) :
    Regular (HomeTabFragment.fragment (β := β) (σ := σ) (γ := γ) categoryId) where
  onViewCreated _ := ⟨CacheStrategy.cacheFirst, _, fun h ↦ h.enableLoadMore _, rfl⟩
  onRefresh _ := ⟨CacheStrategy.netCache, _, id, rfl⟩

variable {fragment : ListFragment ι ρ} {actions : List (Action ρ)} {action : Action ρ}
  {s s' : HiAbsListFragment ι}

/-- A reply changes what is shown as it is meant to. -/
theorem Displays.finishRefresh {shown : Shown ι} (hs : Displays s shown) (hpage : s.pageIndex = 1)
    (dataItems : Option (List ι)) :
    Displays (s.finishRefresh dataItems) (shown.finish dataItems) := by
  unfold HiAbsListFragment.finishRefresh Shown.finish
  rw [if_pos hpage]
  by_cases hitems : dataItems.getD [] = []
  · rw [if_neg (not_not_intro hitems), if_neg (not_not_intro hitems)]
    by_cases hnone : shown.dataItems = []
    · have hdata := hs.dataSets.trans hnone
      rw [if_pos hnone, if_pos (by simp [HiAdapter.getItemCount, hdata])]
      exact ⟨by simp, by simp, hdata, by simp⟩
    · obtain ⟨list, rfl⟩ : ∃ list, shown = .items list := by
        cases shown with
        | items list => exact ⟨list, rfl⟩
        | nothing => exact absurd rfl hnone
        | loading => exact absurd rfl hnone
        | empty => exact absurd rfl hnone
      rw [if_neg hnone, if_neg (by simp [HiAdapter.getItemCount, hs.dataSets, hnone])]
      exact ⟨by simp, hs.emptyView, hs.dataSets, hs.items⟩
  · rw [if_pos hitems, if_pos hitems]
    exact ⟨by simp, by simp, by simp [HiAdapter.clearItems, HiAdapter.addItems, Shown.dataItems],
      by simpa using hitems⟩

theorem Displays.of_eq {shown : Shown ι} (hs : Displays s shown)
    (hloading : s'.loadingView = s.loadingView) (hempty : s'.emptyView = s.emptyView)
    (hadapter : s'.hiAdapter = s.hiAdapter) : Displays s' shown := by
  obtain ⟨h₁, h₂, h₃, h₄⟩ := hs
  exact ⟨hloading ▸ h₁, hempty ▸ h₂, hadapter ▸ h₃, h₄⟩

theorem shown_concat : fragment.shown (actions ++ [action]) =
    match action with
    | .onViewCreated => .loading
    | .reply _ answer =>
        (fragment.finishes answer).elim (fragment.shown actions)
          (Shown.finish · (fragment.shown actions))
    | _ => fragment.shown actions := by
  rw [shown, List.foldl_append]
  cases action with
  | _ => rfl

/-- Of the rest, the end of a refresh counts itself only. -/
structure EndsRefresh (s s' : HiAbsListFragment ι) : Prop where
  pageIndex : s'.pageIndex = s.pageIndex
  requests : s'.requests = s.requests
  recyclerView : s'.recyclerView = s.recyclerView
  posted : s'.posted = s.posted
  refreshFinished : s'.refreshFinished = s.refreshFinished + 1

theorem endsRefresh_finishRefresh (hpage : s.pageIndex = 1) (dataItems : Option (List ι)) :
    EndsRefresh s (s.finishRefresh dataItems) := by
  unfold HiAbsListFragment.finishRefresh
  rw [if_pos hpage]
  dsimp only
  split
  · exact ⟨rfl, rfl, rfl, rfl, rfl⟩
  · split
    · exact ⟨rfl, rfl, rfl, rfl, rfl⟩
    · exact ⟨rfl, rfl, rfl, rfl, rfl⟩

theorem onRefresh_of_idle (hidle : Idle s.recyclerView) :
    s.onRefresh = { s with pageIndex := 1 } := by
  rw [HiAbsListFragment.onRefresh, hidle.isLoadingMore]
  rfl

theorem onScrollStateChanged_of_idle (hidle : Idle s.recyclerView)
    (callback : HiAbsListFragment ι → HiAbsListFragment ι) (event : ScrollEvent) :
    s.onScrollStateChanged callback event = s := by
  rw [HiAbsListFragment.onScrollStateChanged, hidle.dispatch event, Nat.sub_self,
    Function.iterate_zero_apply]

theorem mem_concat_firstPage {requests : List ListRequest} {request : ListRequest}
    (hfirst : ∀ request ∈ requests, request.pageIndex = 1) (hrequest : request.pageIndex = 1) :
    ∀ other ∈ requests ++ [request], other.pageIndex = 1 := by
  intro other hother
  rcases List.mem_append.mp hother with hother | hother
  · exact hfirst other hother
  · rw [List.mem_singleton.mp hother, hrequest]

theorem follows_init (fragment : ListFragment ι ρ) : Follows fragment [] {} where
  pageIndex := rfl
  firstPage := by simp
  requests := rfl
  refreshFinished := rfl
  posted := rfl
  displays := ⟨by simp [shown], by simp [shown], rfl, by simp [shown]⟩
  idle := ⟨⟨rfl, rfl, rfl⟩, rfl⟩

/-- Only the list view changes, or nothing that is to be seen. -/
structure Same (s s' : HiAbsListFragment ι) : Prop where
  pageIndex : s'.pageIndex = s.pageIndex
  requests : s'.requests = s.requests
  refreshFinished : s'.refreshFinished = s.refreshFinished
  posted : s'.posted = s.posted
  loadingView : s'.loadingView = s.loadingView
  emptyView : s'.emptyView = s.emptyView
  hiAdapter : s'.hiAdapter = s.hiAdapter

theorem Follows.of_same (hs : Follows fragment actions s) (hsame : Same s s')
    (hidle : Idle s'.recyclerView) (hasks : action.asks = false)
    (hends : action.finished fragment = false)
    (hshown : fragment.shown (actions ++ [action]) = fragment.shown actions) :
    Follows fragment (actions ++ [action]) s' where
  pageIndex := hsame.pageIndex.trans hs.pageIndex
  firstPage := hsame.requests ▸ hs.firstPage
  requests := by simp [hsame.requests, hs.requests, hasks]
  refreshFinished := by simp [hsame.refreshFinished, hs.refreshFinished, hends]
  posted := hsame.posted.trans hs.posted
  displays := by
    rw [hshown]
    exact hs.displays.of_eq hsame.loadingView hsame.emptyView hsame.hiAdapter
  idle := hidle

theorem Follows.step (hregular : Regular fragment) (hs : Follows fragment actions s)
    (hstep : fragment.step s action = some s') : Follows fragment (actions ++ [action]) s' := by
  obtain ⟨hpage, hfirst, hrequests, hfinished, hposted, hdisplays, hidle⟩ := id hs
  cases action with
  | onViewCreated =>
      obtain rfl := Option.some.inj hstep
      obtain ⟨cacheStrategy, recyclerView, hview, heq⟩ := hregular.onViewCreated s
      rw [heq]
      refine ⟨rfl, mem_concat_firstPage hfirst rfl, ?_, ?_, hposted, ?_, hview idle_new⟩
      · simp [HiAbsListFragment.onViewCreated, hrequests, Action.asks]
      · simp [HiAbsListFragment.onViewCreated, hfinished, Action.finished]
      · rw [shown_concat]
        exact ⟨by simp [HiAbsListFragment.onViewCreated],
          by simp [HiAbsListFragment.onViewCreated], rfl, by simp⟩
  | onRefresh =>
      obtain ⟨-, hstep⟩ := Option.ite_none_right_eq_some.mp hstep
      obtain rfl := Option.some.inj hstep
      obtain ⟨cacheStrategy, recyclerView, hview, heq⟩ := hregular.onRefresh s
      rw [onRefresh_of_idle hidle] at heq hview
      rw [heq]
      refine ⟨rfl, mem_concat_firstPage hfirst rfl, ?_, ?_, hposted, ?_, hview hidle⟩
      · simp [hrequests, Action.asks]
      · simp [hfinished, Action.finished]
      · rw [shown_concat]
        exact hdisplays.of_eq rfl rfl rfl
  | reply request answer =>
      obtain ⟨-, hstep⟩ := Option.ite_none_right_eq_some.mp hstep
      obtain rfl := Option.some.inj hstep
      cases hanswer : fragment.finishes answer with
      | none =>
          refine hs.of_same ⟨rfl, rfl, rfl, rfl, rfl, rfl, rfl⟩ hidle rfl ?_ ?_
          · simp [Action.finished, hanswer]
          · simp [shown_concat, hanswer]
      | some dataItems =>
          obtain ⟨hpage', hrequests', hview', hposted', hfinished'⟩ :=
            endsRefresh_finishRefresh hpage dataItems
          rw [Option.elim_some]
          refine ⟨hpage'.trans hpage, hrequests' ▸ hfirst, ?_, ?_, hposted'.trans hposted, ?_,
            hview' ▸ hidle⟩
          · simp [hrequests', hrequests, Action.asks]
          · simp [hfinished', hfinished, Action.finished, hanswer]
          · simp only [shown_concat, hanswer, Option.elim_some]
            exact hdisplays.finishRefresh hpage dataItems
  | scroll event =>
      obtain rfl := Option.some.inj hstep
      rw [onScrollStateChanged_of_idle hidle]
      exact hs.of_same ⟨rfl, rfl, rfl, rfl, rfl, rfl, rfl⟩ hidle rfl rfl shown_concat
  | layout =>
      obtain rfl := Option.some.inj hstep
      exact hs.of_same ⟨rfl, rfl, rfl, rfl, rfl, rfl, rfl⟩
        (hidle.of_sameLoad (.layout s.recyclerView)) rfl rfl shown_concat
  | runPost =>
      obtain ⟨recyclerView, hview, rfl⟩ := Option.map_eq_some_iff.mp hstep
      obtain ⟨-, hview⟩ := Option.ite_none_right_eq_some.mp hview
      obtain rfl := Option.some.inj hview
      exact hs.of_same ⟨rfl, rfl, rfl, rfl, rfl, rfl, rfl⟩
        (hidle.of_sameLoad (.runPost s.recyclerView)) rfl rfl shown_concat
  | header refreshState =>
      obtain rfl := Option.some.inj hstep
      exact hs.of_same ⟨rfl, rfl, rfl, rfl, rfl, rfl, rfl⟩ hidle rfl rfl shown_concat

theorem Follows.of_run (hregular : Regular fragment)
    (hrun : run fragment.step {} actions = some s) : Follows fragment actions s := by
  induction actions using List.reverseRecOn generalizing s with
  | nil =>
      obtain rfl := Option.some.inj hrun
      exact follows_init fragment
  | append_singleton actions action ih =>
      obtain ⟨u, hu, hstep⟩ := run_concat_eq_some_iff.mp hrun
      exact (ih hu).step hregular hstep

/-- Both list pages follow the replies to their requests for the first page, the only one that
they ever ask for: after every run they show the loading view, the empty page or the items of
the last reply that has any. -/
theorem listPages_follow :
    (∀ (γ : Type*) (actions : List (Action (Reply (List γ)))) s,
      run GoodsListFragment.fragment.step {} actions = some s →
        Follows GoodsListFragment.fragment actions s) ∧
      ∀ (β σ γ : Type*) (categoryId : String)
        (actions : List (Action (Reply (HomeTabFragment.HomeModel β σ γ) × Bool))) s,
        run (HomeTabFragment.fragment categoryId).step {} actions = some s →
          Follows (HomeTabFragment.fragment categoryId) actions s :=
  ⟨fun _ _ _ hrun ↦ Follows.of_run regular_goodsListFragment hrun,
    fun _ _ _ categoryId _ _ hrun ↦ Follows.of_run (regular_homeTabFragment categoryId) hrun⟩

/-- The list comes to rest at its end, is refreshed, and the refresh fails. -/
def goodsRun : List (Action (Reply (List (Fin 2)))) :=
  [.onViewCreated, .reply ⟨1, 1⟩ (.onSuccess { data := some [0, 1] }),
    .scroll ⟨.idle, 2, false, .linearLayoutManager 0 1⟩, .onRefresh, .reply ⟨1, 1⟩ .onFailed]

theorem listPages_follow_goods :
    ∃ s, run GoodsListFragment.fragment.step {} goodsRun = some s ∧
      Follows GoodsListFragment.fragment goodsRun s :=
  ⟨_, rfl, listPages_follow.{0, 0, 0, 0}.1 (Fin 2) goodsRun _ rfl⟩

example : GoodsListFragment.fragment.shown goodsRun = .items [(0, false), (1, false)] := by
  decide

end ListFragment

end HiApp.Home
