import Setka.State.AuthDifferenceSound
import Setka.Handlers.VoucherLimits
import Setka.Handlers.SyncToDevice
import Setka.Rest.PlusGrant
import Setka.Handlers.PlusPending
import Setka.Handlers.FeedEvents
import Setka.Handlers.PlusConcurrency
import Setka.Handlers.FeedCounters
import Setka.EventAuth.Selection
import Setka.Handlers.ChannelComments
import Setka.Storage.Controllers.PersistenceQueue
import Setka.Storage.Controllers.CurrentState
import Setka.Federation.SendQueueReplication
import Setka.Federation.SendQueueRetention
import Setka.Util.Linearizer
import Setka.Util.ReadWriteLock
import Setka.Handlers.BotUpdates
import Setka.Handlers.Bots
import Setka.Handlers.RoomKeys
import Setka.Storage.Lock
import Setka.Handlers.SetkaLoginRuns
import Setka.Util.DeferredCacheRuns
import Setka.Storage.StateCaches
import Setka.Storage.SlidingSyncRuns
import Setka.Federation.PerDestinationQueueRuns
import Setka.Replication.Commands
import Setka.Storage.ForwardsReachable
import Setka.Storage.AuthChainDifference
import Setka.Visibility
import Setka.Appservice.Scheduler
import Setka.Handlers.DelayedEvents
import Setka.Handlers.E2eKeys
import Setka.Storage.IdGeneratorsStartup
import Setka.Handlers.VoucherFailures
import Setka.Handlers.RobokassaSignature
import Setka.Handlers.PlusReferences
import Setka.Handlers.ShareToken
import Setka.Handlers.PlusPlansRestart
import Setka.Handlers.FeedPaging
import Setka.Types.StateFilterDifference
import Setka.Types.StateFilterSql
import Setka.Util.WheelTimerRuns
import Setka.Api.RatelimitingBucket
import Setka.Util.LruCacheIndex
import Setka.Handlers.ChannelTopics
import Setka.State.ResolutionV2Sound
import Setka.Storage.MissingEvents
import Setka.Handlers.BotCreation
import Setka.Storage.FirstReceived
import Setka.Handlers.DelayedEventTimer
import Setka.Storage.EventContext
