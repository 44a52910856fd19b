import HiApp.Lib.Runs
import HiApp.Lib.Loop
import HiApp.Lib.Countdown
import HiApp.Lib.Kahn
import HiApp.Lib.LiveData
import HiApp.Lib.SparseArray
import HiApp.Lib.FragmentManager
import HiApp.Lib.Java
import HiApp.TaskFlow.Task
import HiApp.TaskFlow.Edges
import HiApp.TaskFlow.Project
import HiApp.TaskFlow.Runtime
import HiApp.TaskFlow.Machine
import HiApp.TaskFlow.Refinement
import HiApp.TaskFlow.Dependency
import HiApp.TaskFlow.WaitLoop
import HiApp.TaskFlow.WaitingQueue
import HiApp.TaskFlow.Confinement
import HiApp.TaskFlow.Starvation
import HiApp.LaunchStarter.Task
import HiApp.LaunchStarter.Sort
import HiApp.LaunchStarter.SortOrder
import HiApp.LaunchStarter.History
import HiApp.LaunchStarter.Dispatcher
import HiApp.LaunchStarter.Book
import HiApp.LaunchStarter.Latches
import HiApp.LaunchStarter.Dependency
import HiApp.LaunchStarter.LateRegistration
import HiApp.LaunchStarter.Await
import HiApp.LaunchStarter.Flow
import HiApp.LaunchStarter.Progress
import HiApp.LaunchStarter.Process
import HiApp.LaunchStarter.AtMostOnce
import HiApp.Executor.Callable
import HiApp.Executor.Pause
import HiApp.Storage.HiStorage
import HiApp.Restful.MethodParser
import HiApp.Restful.Request
import HiApp.Restful.Service
import HiApp.Restful.Scheduler
import HiApp.Restful.Agreement
import HiApp.Restful.Convert
import HiApp.Account.AccountManager
import HiApp.Account.Login
import HiApp.Restful.Delivery
import HiApp.DataBus.HiDataBus
import HiApp.DataBus.Subscription
import HiApp.DataBus.Connected
import HiApp.Adapter.HiAdapter
import HiApp.Adapter.PositionMap
import HiApp.Adapter.Notifications
import HiApp.Refresh.HiRefreshLayout
import HiApp.Refresh.Stability
import HiApp.Refresh.Closing
import HiApp.Navigation.HiFragmentNavigator
import HiApp.Navigation.Overlap
import HiApp.Navigation.NavProcessor
import HiApp.Navigation.NavUtil
import HiApp.Tab.HiTabTopLayout
import HiApp.Home.HomePage
import HiApp.Home.TabPager
import HiApp.TaskFlow.Traversal
import HiApp.TaskFlow.Priority
import HiApp.TaskFlow.Atomicity
import HiApp.TaskFlow.BlockList
import HiApp.TaskFlow.LookAhead
import HiApp.TaskFlow.ProjectShape
import HiApp.Category.CategoryFragment
import HiApp.CitySelector.CitySelectorDialogFragment
import HiApp.CitySelector.Selection
import HiApp.Lib.PrefixCode
import HiApp.Restful.Parameters
import HiApp.Restful.CacheKey
import HiApp.Lib.Replacement
import HiApp.Restful.PathSubstitution
import HiApp.Adapter.ListEditing
import HiApp.Adapter.ViewTypes
import HiApp.Util.ActivityManager
import HiApp.Util.Foreground
import HiApp.Lib.MessageQueue
import HiApp.Util.MainHandler
import HiApp.Util.PermissionUtil
import HiApp.LaunchStarter.Validation
import HiApp.Home.HomePagerAdapter
import HiApp.Navigation.DestinationType
import HiApp.Refresh.Geometry
import HiApp.Category.SpanSizeLookUp
import HiApp.Category.CategoryItemDecoration
import HiApp.Banner.HiBanner
import HiApp.Tab.TabLayout
import HiApp.Tab.HiFragmentTabView
import HiApp.Adapter.HiRecyclerView
import HiApp.Home.GoodsItem
import HiApp.Lib.BreadthFirst
import HiApp.Util.HiViewUtil
import HiApp.LaunchStarter.Alignment
import HiApp.Amount.AmountView
import HiApp.Slider.MenuAdapter
import HiApp.Fps.FrameMonitor
import HiApp.Log.HiConsolePrinter
import HiApp.Lib.CivilDate
import HiApp.Log.HiFilePrinter
import HiApp.Executor.HiExecutor
import HiApp.Home.HiAbsListFragment
import HiApp.Lib.Debounce
import HiApp.Navigation.SavedState
import HiApp.Search.HiSearchView
import HiApp.Tab.MainActivityLogic
import HiApp.Account.Session
import HiApp.Banner.HiIndicator
import HiApp.CitySelector.CityListView
import HiApp.CitySelector.CityPagerAdapter
import HiApp.Log.HiLog
import HiApp.Route.BizInterceptor
import HiApp.TaskFlow.Listeners
import HiApp.Fps.FpsViewer
import HiApp.Navigation.BottomBar
