import BurnerRedis.Snapshot
import BurnerRedis.Ownership
import BurnerRedis.ReadErrors
import BurnerRedis.Accounting
import BurnerRedis.ListWakeups
import BurnerRedis.StreamWakeups
import BurnerRedis.GroupWakeups
import BurnerRedis.ScriptLists
import BurnerRedis.ScriptKeys
import BurnerRedis.SortedIndexes
import BurnerRedis.StreamIds
import BurnerRedis.EmptyContainers
import BurnerRedis.FailedMethods
import BurnerRedis.FailedCommands
import BurnerRedis.Sweeps
import BurnerRedis.Atomicity
import BurnerRedis.ScriptStreams
import BurnerRedis.PubSub.Coherence
import BurnerRedis.PubSub.ScriptPublish
import BurnerRedis.PubSub.Delivery
import BurnerRedis.PubSub.Stopping
import BurnerRedis.GlobTokens
import BurnerRedis.ClaimExclusion
import BurnerRedis.AutoclaimSweep
import BurnerRedis.ListConservation
import BurnerRedis.ListQueues
import BurnerRedis.StreamTail
import BurnerRedis.KeyFrame
import BurnerRedis.Isolation
import BurnerRedis.CrashSafety
import BurnerRedis.Rollback
import BurnerRedis.Lock
import BurnerRedis.LockHolder
import BurnerRedis.BlockingTimeouts
import BurnerRedis.Pipeline.Agreement
import BurnerRedis.Lib.Selection
import BurnerRedis.PendingReads
import BurnerRedis.ScoreRanges
import BurnerRedis.Lib.Sampling
import BurnerRedis.ActiveExpiry
import BurnerRedis.Utf8
import BurnerRedis.Script.Conversion
import BurnerRedis.ScriptReturns
import BurnerRedis.ReplyRoundTrip
import BurnerRedis.MalformedNumbers
import BurnerRedis.IndexWindows
import BurnerRedis.ListRemovals
import BurnerRedis.ZaddLaws
import BurnerRedis.HashCounters
import BurnerRedis.IdTexts
import BurnerRedis.StreamRanges
import BurnerRedis.PendingCounts
import BurnerRedis.ClaimPanics
import BurnerRedis.Deadlines
import BurnerRedis.ScoreTexts
import BurnerRedis.CollectionRefinement
import BurnerRedis.StreamLogRuns
import BurnerRedis.DataTypes
