import RedisStreamClient.Lib.Strconv
import RedisStreamClient.Lib.Split
import RedisStreamClient.Lib.Prog
import RedisStreamClient.Lib.Transitions
import RedisStreamClient.Lib.Pool
import RedisStreamClient.Lib.Schedule
import RedisStreamClient.Lib.Fair
import RedisStreamClient.Lib.Handout
import RedisStreamClient.Lib.Holdings
import RedisStreamClient.Lib.Log
import RedisStreamClient.Lib.Ledger
import RedisStreamClient.Lib.Lineage
import RedisStreamClient.Lib.Scan
import RedisStreamClient.Redis.StreamID
import RedisStreamClient.Types.Errs
import RedisStreamClient.Notifs.LBSMsg
import RedisStreamClient.Redis.Server
import RedisStreamClient.Notifs.Broker
import RedisStreamClient.Notifs.Shutdown
import RedisStreamClient.Notifs.Delivery
import RedisStreamClient.Notifs.Return
import RedisStreamClient.Impl.MutexKey
import RedisStreamClient.Impl.LBSEntry
import RedisStreamClient.Impl.Machine
import RedisStreamClient.Impl.ReQueue
import RedisStreamClient.Impl.Client
import RedisStreamClient.Impl.Session
import RedisStreamClient.Impl.Contract
import RedisStreamClient.Impl.History
import RedisStreamClient.Impl.Effects
import RedisStreamClient.Impl.Handout
import RedisStreamClient.Impl.Knowledge
import RedisStreamClient.Impl.Conservation
import RedisStreamClient.Impl.Lineage
import RedisStreamClient.Impl.Locks
import RedisStreamClient.Impl.Naming
import RedisStreamClient.Impl.Lookup
import RedisStreamClient.Impl.Trace
import RedisStreamClient.Impl.Disown
import RedisStreamClient.Impl.Reconcile
import RedisStreamClient.Impl.Race
import RedisStreamClient.Impl.Finish
import RedisStreamClient.Impl.LiveOwner
import RedisStreamClient.Impl.Retries
import RedisStreamClient.Impl.Overflow
import RedisStreamClient.Impl.Extender
import RedisStreamClient.Impl.Custody
import RedisStreamClient.Impl.Contention
import RedisStreamClient.Impl.Herald
import RedisStreamClient.Impl.Announce
import RedisStreamClient.Impl.Gap
import RedisStreamClient.Impl.Outcome
import RedisStreamClient.Impl.Spelling
import RedisStreamClient.Impl.Settled
import RedisStreamClient.Impl.Lifecycle
import RedisStreamClient.Impl.Setup
import RedisStreamClient.Impl.Works
import RedisStreamClient.Impl.Drain
import RedisStreamClient.Impl.Verdict
import RedisStreamClient.Impl.Options
import RedisStreamClient.Impl.Construct
import RedisStreamClient.Impl.Backoff
import RedisStreamClient.Impl.Counter
import RedisStreamClient.Impl.Farewell
import RedisStreamClient.Impl.Halting
import RedisStreamClient.Impl.Orphans
import RedisStreamClient.Impl.HalfDone
import RedisStreamClient.Impl.Topology
import RedisStreamClient.Impl.Expiry
import RedisStreamClient.Impl.Refusal
import RedisStreamClient.Impl.FanOut
import RedisStreamClient.Impl.Subscriptions
import RedisStreamClient.Impl.Overlap
import RedisStreamClient.Impl.Renewal
import RedisStreamClient.Impl.Leftover
