import RedisStreamClient.Impl.LBSEntry
import RedisStreamClient.Impl.Machine

/-!
# The recovery primitive

`reQueue` of `impl/requeue.go` and the functions it is made of, as programs over the
client's operations.  Log lines are left out.
-/

namespace RedisStreamClient.Impl

open RedisStreamClient.Lib RedisStreamClient.Errs RedisStreamClient.Notifs
open RedisStreamClient.Redis

/-- `RecoveryConfig`; durations are nanoseconds. -/
structure RecoveryConfig where
  /-- `ReconciliationInterval`. -/
  reconciliationInterval : Int
  /-- `MinIdleTime`. -/
  minIdleTime : Int
  /-- `BatchSize`. -/
  batchSize : Int
  /-- `MaxRetries`. -/
  maxRetries : Int
  /-- `DLQStream`. -/
  dlqStream : String
  /-- `DLQMaxLen`. -/
  dlqMaxLen : Int
deriving DecidableEq, Repr

/-- The configuration of a `RecoverableRedisStreamClient`. -/
structure Client where
  /-- `serviceName`. -/
  serviceName : String
  /-- `consumerID`. -/
  consumerID : String
  /-- `hbInterval`. -/
  hbInterval : Int
  /-- `maxRetries`. -/
  maxRetries : Int
  /-- `initialRetryDelay`. -/
  initialRetryDelay : Int
  /-- `maxRetryDelay`. -/
  maxRetryDelay : Int
  /-- `recoveryConfig`. -/
  recoveryConfig : RecoveryConfig
deriving DecidableEq, Repr

namespace Client

/-- `lbsGroupName`. -/
def lbsGroupName (r : Client) : String := r.serviceName ++ Configs.groupSuffix

/-- `lbsName`. -/
def lbsName (r : Client) : String := r.serviceName ++ Configs.inputSuffix

end Client

/-! ## The operations as programs -/

namespace Op

/-- `redisClient.XRange`. -/
def xRange (stream start stop : String) : Prog sig (Except Err (List XMessage)) :=
  .perform (S := sig) (.xrange stream start stop)

/-- `redisClient.XAck`. -/
def xAck (stream group id : String) : Prog sig (Except Err Int) :=
  .perform (S := sig) (.xack stream group id)

/-- `redisClient.XAdd`. -/
def xAdd (stream : String) (maxLen : Int) (values : Values) : Prog sig (Except Err String) :=
  .perform (S := sig) (.xadd stream maxLen values)

/-- `redisClient.XDel`. -/
def xDel (stream id : String) : Prog sig (Except Err Int) :=
  .perform (S := sig) (.xdel stream id)

/-- `redisClient.Exists`. -/
def exists_ (key : String) : Prog sig (Except Err Int) :=
  .perform (S := sig) (.existsKey key)

/-- A call of the metrics recorder. -/
def metric (m : Metric) : Prog sig Unit := .perform (S := sig) (.record m)

end Op

/-- `reQueueOutcome`. -/
inductive ReQueueOutcome
  | error
  | lostRace
  | skippedAlive
  | requeued
  | dlq
deriving DecidableEq, Repr

/-- `unknownDataStream`. -/
def unknownDataStream : String := "unknown"

section

variable (J : Json) (r : Client)

/-- `readLBSEntry`. -/
def readLBSEntry (idInLBS : String) : Prog sig (Except Err (Option LBSEntry)) := do
  match ← Op.xRange r.lbsName idInLBS idInLBS with
  | .error err => return .error (.redis .reQueue err)
  | .ok [] => return .ok none
  | .ok (m :: _) => return .ok (some ⟨idInLBS, m.values⟩)

/-- `ownerAlive`. -/
def ownerAlive (lbsInfo : LBSInfo) : Prog sig (Except Err Bool) := do
  match ← Op.exists_ lbsInfo.formMutexKey with
  | .error err => return .error (.redis .reQueue err)
  | .ok n => return .ok (0 < n)

/-- `routeToDLQ`. -/
def routeToDLQ (dataStreamName : String) (entry : LBSEntry) (retryCount : Int)
    (reason : String) : Prog sig (ReQueueOutcome × Option Err) := do
  match ← Op.xAck r.lbsName r.lbsGroupName entry.id with
  | .error err => return (.error, some (.redis .routeDLQ err))
  | .ok acked =>
    if acked = 0 then
      return (.lostRace, none)
    else if r.recoveryConfig.dlqStream ≠ "" then
      match ← Op.xAdd r.recoveryConfig.dlqStream r.recoveryConfig.dlqMaxLen
        (entry.deadLettered retryCount reason) with
      | .error err =>
        Op.metric (.ackAddGap dataStreamName)
        return (.dlq, some (.redis .routeDLQ err))
      | .ok _ =>
        Op.metric (.dlqRouting dataStreamName)
        -- an error of the XDEL is logged only
        let _ ← Op.xDel r.lbsName entry.id
        return (.dlq, none)
    else
      let _ ← Op.xDel r.lbsName entry.id
      return (.dlq, none)

/-- The rest of `reQueue` once the owner is known to be dead. -/
def reAdd (idInLBS dataStreamName : String) (entry : LBSEntry) :
    Prog sig (ReQueueOutcome × String × Option Err) := do
  let next := wrap64 (entry.retryCount + 1)
  if r.recoveryConfig.maxRetries < next then
    let (out, dlqErr) ← routeToDLQ r dataStreamName entry next Configs.dlqReasonMaxRetries
    return (out, dataStreamName, dlqErr)
  else
    match ← Op.xAck r.lbsName r.lbsGroupName idInLBS with
    | .error err =>
      Op.metric (.reQueue dataStreamName false)
      return (.error, dataStreamName, some (.redis .reQueue err))
    | .ok acked =>
      if acked = 0 then
        return (.lostRace, dataStreamName, none)
      else
        match ← Op.xAdd r.lbsName 0 (entry.requeued next) with
        | .error err =>
          -- the atomicity gap: acked, but not added again
          Op.metric (.ackAddGap dataStreamName)
          Op.metric (.reQueue dataStreamName false)
          return (.error, dataStreamName, some (.redis .reQueue err))
        | .ok _ =>
          let _ ← Op.xDel r.lbsName idInLBS
          Op.metric (.reQueue dataStreamName true)
          return (.requeued, dataStreamName, none)

/-- `reQueue`. -/
def reQueue (idInLBS : String) : Prog sig (ReQueueOutcome × String × Option Err) := do
  match ← readLBSEntry r idInLBS with
  | .error err => return (.error, "", some err)
  | .ok none =>
    -- no such entry: clear any lingering PEL ownership, whatever the reply
    let _ ← Op.xAck r.lbsName r.lbsGroupName idInLBS
    return (.lostRace, "", none)
  | .ok (some entry) =>
    match entry.dataStreamName J with
    | .error _ =>
      let (out, dlqErr) ← routeToDLQ r unknownDataStream entry entry.retryCount
        Configs.dlqReasonUnparseable
      return (out, unknownDataStream, dlqErr)
    | .ok dataStreamName =>
      match createByParts dataStreamName idInLBS with
      | .error err => return (.error, dataStreamName, some (.redis .reQueue err))
      | .ok lbsInfo =>
        match ← ownerAlive lbsInfo with
        | .error err => return (.error, dataStreamName, some err)
        | .ok true =>
          Op.metric (.mutexAliveSkip dataStreamName)
          return (.skippedAlive, dataStreamName, none)
        | .ok false => reAdd r idInLBS dataStreamName entry

end

end RedisStreamClient.Impl
