/-!
# Errors

The error values the client builds, as `types/errs` defines them: sentinels, and
the wrappers that name the operation that failed.  What Redis and the lock library
report is `reply`, `canceled` and the three lock errors; the client looks at their
identity only.
-/

namespace RedisStreamClient.Errs

/-- `errs.RedisOp`: the operation a `RedisErr` happened in. -/
inductive RedisOp
  | enableKeyspaceNotification
  | createLBSStream
  | ackStream
  | delStream
  | closePubSub
  | reQueue
  | routeDLQ
  | reinitTopology
  | unmarshalLBSMessage
deriving DecidableEq, Repr

/-- The text of an operation. -/
def RedisOp.string : RedisOp → String
  | .enableKeyspaceNotification => "enabling keyspace notifications"
  | .createLBSStream => "creating LBS stream"
  | .ackStream => "acknowledging stream"
  | .delStream => "deleting stream"
  | .closePubSub => "closing redis pubsub"
  | .reQueue => "re-queuing LBS message"
  | .routeDLQ => "routing message to DLQ"
  | .reinitTopology => "reinitializing for cluster topology"
  | .unmarshalLBSMessage => "unmarshalling LBS message"

/-- `errs.MutexOp`: the operation a `MutexErr` happened in. -/
inductive MutexOp
  | lockMutex
  | extendMutex
  | unlockMutex
deriving DecidableEq, Repr

/-- The text of an operation. -/
def MutexOp.string : MutexOp → String
  | .lockMutex => "locking mutex"
  | .extendMutex => "extending mutex lock"
  | .unlockMutex => "unlocking mutex"

/-- An error value. -/
inductive Err
  | /-- An error reply of Redis, or a command that did not get through. -/
    reply (text : String)
  | /-- `context.Canceled`. -/
    canceled
  | /-- The lock is held under another value. -/
    lockTaken
  | /-- `redsync.ErrLockAlreadyExpired`. -/
    lockAlreadyExpired
  | /-- `fmt.Errorf` with a fixed text. -/
    errorf (text : String)
  | /-- `fmt.Errorf` with a `%w` between two texts. -/
    wrapf (before : String) (err : Err) (after : String)
  | invalidRecoveryConfig
  | clusterClientRequired
  | keyspaceNotifsAllMastersFailed
  | invalidKeyForLBSMessage
  | invalidLBSMessage
  | noDatastreamInLBSMessage
  | alreadyClaimed
  | dataStreamNotFound
  | existingConfigWithoutOverride
  | clusterNotSettled
  | /-- `errs.NewRedisError`. -/
    redis (op : RedisOp) (err : Err)
  | /-- `errs.NewMutexError`; `Extend` may fail without an error of its own. -/
    mutex (op : MutexOp) (err : Option Err)
deriving Repr

/-- `Error()`. -/
def Err.error : Err → String
  | .reply text => text
  | .canceled => "context canceled"
  | .lockTaken => "lock already taken"
  | .lockAlreadyExpired => "redsync: failed to unlock, lock was already expired"
  | .errorf text => text
  | .wrapf before err after => before ++ err.error ++ after
  | .invalidRecoveryConfig => "invalid recovery config"
  | .clusterClientRequired => "ClusterModeOSS requires a *redis.ClusterClient"
  | .keyspaceNotifsAllMastersFailed => "failed to enable keyspace notifications on every master"
  | .invalidKeyForLBSMessage => "invalid key for LBS; must be `lbs-input`"
  | .invalidLBSMessage => "invalid or malformed LBS message"
  | .noDatastreamInLBSMessage => "lbs message does not have data stream name"
  | .alreadyClaimed => "already claimed"
  | .dataStreamNotFound => "data stream not found"
  | .existingConfigWithoutOverride =>
    "existing configuration detected without force override option"
  | .clusterNotSettled => "redis cluster is not settled"
  | .redis op err => "redis error during operation [" ++ op.string ++ "]: " ++ err.error
  | .mutex op (some err) => "mutex error on operation [" ++ op.string ++ "]: " ++ err.error
  | .mutex op none => "mutex error on operation [" ++ op.string ++ "]: <nil>"

/-- `errors.Is(err, context.Canceled)`: the wrappers are transparent. -/
def Err.isCanceled : Err → Bool
  | .canceled => true
  | .redis _ err => err.isCanceled
  | .mutex _ (some err) => err.isCanceled
  | .wrapf _ err _ => err.isCanceled
  | _ => false

/-- `errors.Is(err, ErrExistingConfigWithoutOverride)`. -/
def Err.isExistingConfigWithoutOverride : Err → Bool
  | .existingConfigWithoutOverride => true
  | .redis _ err => err.isExistingConfigWithoutOverride
  | .mutex _ (some err) => err.isExistingConfigWithoutOverride
  | .wrapf _ err _ => err.isExistingConfigWithoutOverride
  | _ => false

/-- `errors.Is(err, ErrClusterNotSettled)`. -/
def Err.isClusterNotSettled : Err → Bool
  | .clusterNotSettled => true
  | .redis _ err => err.isClusterNotSettled
  | .mutex _ (some err) => err.isClusterNotSettled
  | .wrapf _ err _ => err.isClusterNotSettled
  | _ => false

end RedisStreamClient.Errs
