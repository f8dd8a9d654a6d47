import SyLog.Routing
import SyLog.Concurrency.CacheCoherence
import SyLog.Concurrency.Lifecycle
import SyLog.Concurrency.RouteUpdates
import SyLog.Async.CrossbarSession
import SyLog.Async.LaneMachine
import SyLog.AsyncRefinement
import SyLog.Concurrency.BlockingDelivery
import SyLog.SessionCalls
import SyLog.QueuedEvents
import SyLog.RouteOrder
import SyLog.Sinks.FailedRenames
import SyLog.Sinks.FailedStreams
import SyLog.Sinks.DailyRotation
import SyLog.Renderers.AnsiConsoleRenderer
import SyLog.Renderers.JsonValidity
import SyLog.Renderers.ReplaceLoop
import SyLog.Async.LaneIsolation
import SyLog.SevereRecords
import SyLog.DynamicFilters
import SyLog.Async.LostWakeups
import SyLog.Concurrency.ShutdownWakeups
import SyLog.Async.Restarts
import SyLog.Concurrency.QueueOwnership
import SyLog.Concurrency.DataRaces
import SyLog.Concurrency.SubmitOrder
import SyLog.FileLogging
import SyLog.JsonLog
import SyLog.Sinks.DiskUsage
import SyLog.Sinks.FailingDisk
