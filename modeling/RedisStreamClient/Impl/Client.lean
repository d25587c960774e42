import RedisStreamClient.Impl.ReQueue

/-!
# The goroutines of a client

The methods and background loops of `impl/relredis.go` and `impl/init.go` as programs,
and the machine that runs them: any number of clients of one service over one Redis
server.  A loop is one turn of it, ending with the call to go round with.
-/

namespace RedisStreamClient.Impl

open RedisStreamClient.Lib RedisStreamClient.Errs RedisStreamClient.Notifs
open RedisStreamClient.Redis

namespace Op

/-- `redisClient.XPendingExt`. -/
def xPendingExt (stream group : String) (idle : Nat) (start stop : String) (count : Int) :
    Prog sig (Except Err (List String)) :=
  .perform (S := sig) (.xpending stream group idle start stop count)

/-- `redisClient.XReadGroup`. -/
def xReadGroup (group consumer stream : String) :
    Prog sig (Except Err (List (String × List XMessage))) :=
  .perform (S := sig) (.xreadGroup group consumer stream)

/-- `redsyncMutex.Lock`. -/
def lockMutex (m : RedsyncMutex) : Prog sig (Option Err) := .perform (S := sig) (.lock m)

/-- `redsyncMutex.Extend`. -/
def extendMutex (m : RedsyncMutex) : Prog sig (Bool × Option Err) :=
  .perform (S := sig) (.extend m)

/-- `redsyncMutex.Unlock`. -/
def unlockMutex (m : RedsyncMutex) : Prog sig (Bool × Option Err) :=
  .perform (S := sig) (.unlock m)

/-- `r.isContextDone`. -/
def contextDone : Prog sig Bool := .perform (S := sig) .isContextDone

/-- `r.streamLocks[name] = info`. -/
def setStreamLocks (name : String) (info : StreamLocksInfo) : Prog sig Unit :=
  .perform (S := sig) (.putStreamLocks name info)

/-- `r.popStreamLocksInfo`. -/
def popStreamLocks (name : String) : Prog sig (Option StreamLocksInfo) :=
  .perform (S := sig) (.popStreamLocksInfo name)

/-- `r.isStreamProcessingDone`. -/
def streamProcessingDone (name : String) : Prog sig Bool :=
  .perform (S := sig) (.isStreamProcessingDone name)

/-- `time.Sleep`. -/
def sleepFor (d : Int) : Prog sig Unit := .perform (S := sig) (.sleep d)

/-- A select between `ctx.Done()` and `time.After(d)`. -/
def afterOrDone (d : Int) : Prog sig Bool := .perform (S := sig) (.waitOrDone d)

/-- `go r.startExtendingKey(..)`. -/
def goExtend (m : RedsyncMutex) (lbsInfo : LBSInfo) (info : GoMap Value) : Prog sig Unit :=
  .perform (S := sig) (.goStartExtendingKey m lbsInfo info)

/-- `r.notificationBroker.Send` under the context of the LBS goroutines. -/
def sendNotif (m : RecoverableRedisNotification) : Prog sig Bool :=
  (Broker.send 0 m).embed (T := sig) .broker fun _ r ↦ r

end Op

section

variable (J : Json) (r : Client)

/-- `Claim`. -/
def claim (lbsInfo : LBSInfo) : Prog sig (Option Err) := do
  let (outcome, _, err) ← reQueue J r lbsInfo.idInLBS
  match err with
  | some err => return some err
  | none =>
    if outcome ≠ .requeued ∧ outcome ≠ .dlq then return some .alreadyClaimed
    else return none

/-- `DoneStream`. -/
def doneStream (dataStreamName : String) : Prog sig (Option Err) := do
  match ← Op.popStreamLocks dataStreamName with
  | none => return some .dataStreamNotFound
  | some streamLocksInfo =>
    match ← Op.xAck r.lbsName r.lbsGroupName streamLocksInfo.lbsInfo.idInLBS with
    | .error err => return some (.redis .ackStream err)
    | .ok _ =>
      match ← Op.xDel r.lbsName streamLocksInfo.lbsInfo.idInLBS with
      | .error err => return some (.redis .delStream err)
      | .ok _ =>
        match ← Op.unlockMutex streamLocksInfo.redsyncMutex with
        | (_, none) => released
        | (_, some .lockAlreadyExpired) => released
        | (_, some err) =>
          Op.metric (.lockReleaseAttempt dataStreamName false)
          return some (.mutex .unlockMutex (some err))
where
  /-- The lock is gone, by this call or before it. -/
  released : Prog sig (Option Err) := do
    Op.metric (.lockReleaseAttempt dataStreamName true)
    Op.metric (.streamProcessingEnd dataStreamName)
    return none

/-! ## The reconciliation scan -/

/-- The milliseconds of a duration, as the client library sends them. -/
def formatMs (d : Int) : Nat :=
  if 0 < d ∧ d < 1000000 then 1 else (d / 1000000).toNat

/-- What a scan counts: re-queued, skipped alive, routed to the DLQ. -/
structure ScanCounts where
  /-- `requeued`. -/
  requeued : Int
  /-- `skippedAlive`. -/
  skippedAlive : Int
  /-- `dlqRouted`. -/
  dlqRouted : Int
deriving DecidableEq, Repr

/-- The switch on the outcome of one entry. -/
def ScanCounts.add (n : ScanCounts) : ReQueueOutcome → ScanCounts
  | .requeued => { n with requeued := n.requeued + 1 }
  | .skippedAlive => { n with skippedAlive := n.skippedAlive + 1 }
  | .dlq => { n with dlqRouted := n.dlqRouted + 1 }
  | .error | .lostRace => n

/-- The loop of `reconcileLBS` over the pending entries; `none` when the context is
done. -/
def scanPending : List String → ScanCounts → Prog sig (Option ScanCounts)
  | [], n => return some n
  | id :: ids, n => do
    if ← Op.contextDone then
      return none
    else
      let (outcome, _, err) ← reQueue J r id
      match err with
      | some _ => scanPending ids n
      | none => scanPending ids (n.add outcome)

/-- `reconcileLBS`. -/
def reconcileLBS (startup : Bool) : Prog sig Unit := do
  match ← Op.xPendingExt r.lbsName r.lbsGroupName (formatMs r.recoveryConfig.minIdleTime)
    Configs.minimalRangeID Configs.maximalRangeID r.recoveryConfig.batchSize with
  | .error _ =>
    Op.metric (.reconciliationScan 0 0 0)
    if startup then Op.metric (.startupRecovery false 0) else return ()
  | .ok pending =>
    match ← scanPending J r pending ⟨0, 0, 0⟩ with
    | none => return ()
    | some n =>
      Op.metric (.reconciliationScan n.requeued n.skippedAlive n.dlqRouted)
      if startup then Op.metric (.startupRecovery true (n.requeued + n.dlqRouted)) else return ()

/-- One turn of `runReconciliationLoop`: a pass, then the wait for the next one. -/
def runReconciliationLoop (startup : Bool) : Prog sig (Res ⊕ Call) := do
  reconcileLBS J r startup
  if ← Op.afterOrDone r.recoveryConfig.reconciliationInterval then
    return .inl .ended
  else
    return .inr (.reconcile false)

/-! ## The lock extender -/

/-- What `startExtendingKey` defers to its exit. -/
def extenderExit (extensionFailed : Bool) (lbsInfo : LBSInfo) (info : GoMap Value) :
    Prog sig Unit := do
  if extensionFailed then
    let _ ← Op.sendNotif (make .streamDisowned lbsInfo info)
    popIfRecorded
  else
    popIfRecorded
where
  /-- Pop the stream if its processing is not finished. -/
  popIfRecorded : Prog sig Unit := do
    if ← Op.streamProcessingDone lbsInfo.dataStreamName then
      return ()
    else
      let _ ← Op.popStreamLocks lbsInfo.dataStreamName
      return ()

/-- One turn of the loop of `startExtendingKey`. -/
def startExtendingKey (m : RedsyncMutex) (lbsInfo : LBSInfo) (info : GoMap Value) :
    Prog sig (Res ⊕ Call) := do
  if ← Op.contextDone then
    extenderExit false lbsInfo info
    return .inl (.extended none)
  else if ← Op.streamProcessingDone lbsInfo.dataStreamName then
    extenderExit false lbsInfo info
    return .inl (.extended none)
  else
    match ← Op.extendMutex m with
    | (true, none) =>
      Op.metric (.lockExtensionAttempt lbsInfo.dataStreamName true)
      Op.sleepFor (r.hbInterval / 2)
      return .inr (.startExtendingKey m lbsInfo info)
    | (_, err) =>
      Op.metric (.lockExtensionAttempt lbsInfo.dataStreamName false)
      extenderExit true lbsInfo info
      return .inl (.extended (some (.mutex .extendMutex err)))

/-! ## The LBS reader -/

/-- The body of `processLBSMessages`' loop, for one message. -/
def processLBSMessage (message : XMessage) : Prog sig (Option Err) :=
  match message.values.lookup Configs.lbsInput with
  | none => return some .invalidKeyForLBSMessage
  | some (.other _) => return some .invalidLBSMessage
  | some (.str val) =>
    match J.unmarshal val with
    | .error err => return some (.redis .unmarshalLBSMessage (.errorf err))
    | .ok lbsMessage =>
      if lbsMessage.dataStreamName = "" then return some .noDatastreamInLBSMessage
      else
        match createByParts lbsMessage.dataStreamName message.id with
        | .error err => return some err
        | .ok lbsInfo => acquire lbsMessage lbsInfo
where
  /-- Lock the entry, record it, announce it and keep its lock extended. -/
  acquire (lbsMessage : LBSInputMessage) (lbsInfo : LBSInfo) : Prog sig (Option Err) := do
    let redsyncMutex : RedsyncMutex := ⟨lbsInfo.formMutexKey, r.consumerID⟩
    match ← Op.lockMutex redsyncMutex with
    | some err =>
      Op.metric (.lockAcquisitionAttempt lbsMessage.dataStreamName false)
      return some (.mutex .lockMutex (some err))
    | none =>
      Op.metric (.lockAcquisitionAttempt lbsMessage.dataStreamName true)
      Op.setStreamLocks lbsInfo.dataStreamName ⟨lbsInfo, redsyncMutex, lbsMessage.info⟩
      let _ ← Op.sendNotif (make .streamAdded lbsInfo lbsMessage.info)
      Op.metric (.streamProcessingStart lbsInfo.dataStreamName)
      Op.goExtend redsyncMutex lbsInfo lbsMessage.info
      return none

/-- `processLBSMessages`, over the messages of all streams of one read. -/
def processLBSMessages : List XMessage → Prog sig (Option Err)
  | [] => return none
  | message :: messages => do
    match ← processLBSMessage J r message with
    | some err => return some err
    | none => processLBSMessages messages

/-- One turn of the loop of `readLBSStream`. -/
def readLBSStream (consecutiveErrors currentRetryDelay : Int) : Prog sig (Res ⊕ Call) := do
  if ← Op.contextDone then
    terminate "context done"
  else
    match ← Op.xReadGroup r.lbsGroupName r.consumerID r.lbsName with
    | .error err =>
      if err.isCanceled then
        terminate Err.canceled.error
      else
        let consecutiveErrors := wrap64 (consecutiveErrors + 1)
        if 0 ≤ r.maxRetries ∧ r.maxRetries < consecutiveErrors then
          terminate err.error
        else if ← Op.afterOrDone currentRetryDelay then
          terminate Err.canceled.error
        else
          let doubled := wrap64 (currentRetryDelay * 2)
          return .inr (.readLBSStream consecutiveErrors
            (if r.maxRetryDelay < doubled then r.maxRetryDelay else doubled))
    | .ok streams =>
      match ← processLBSMessages J r (streams.flatMap Prod.snd) with
      | some err => terminate err.error
      | none =>
        -- a successful read resets the error tracking
        if 0 < consecutiveErrors then return .inr (.readLBSStream 0 r.initialRetryDelay)
        else return .inr (.readLBSStream consecutiveErrors currentRetryDelay)
where
  /-- Send the termination notification and return. -/
  terminate (info : String) : Prog sig (Res ⊕ Call) := do
    let _ ← Op.sendNotif (makeStreamTerminatedNotif info)
    return .inl .ended

end

/-! ## The machine -/

section

variable (J : Json) (cfg : Nat → Client)

/-- The code of a call of client `c`. -/
def body (c : Nat) : Call → Prog sig (Res ⊕ Call)
  | .claim lbsInfo => claim J (cfg c) lbsInfo >>= fun e ↦ .ret (.inl (.claimed e))
  | .doneStream name => doneStream (cfg c) name >>= fun e ↦ .ret (.inl (.doneStream e))
  | .reconcile startup => runReconciliationLoop J (cfg c) startup
  | .readLBSStream n d => readLBSStream J (cfg c) n d
  | .startExtendingKey m lbsInfo info => startExtendingKey (cfg c) m lbsInfo info
  | .broker f => (Broker.body f).embed (T := sig) .broker (fun _ r ↦ r) >>= fun x ↦
      .ret (x.map .broker .broker)

/-- The memory of a client that was just created. -/
def Local.new (bufferSize : Nat) : Local := ⟨∅, false, .new bufferSize⟩

/-- The clients of one service over one Redis server.  A crashed client loses its
memory; should it come back, it starts afresh. -/
@[reducible] def machine : Machine sig where
  Owner := Nat
  State := World
  Choice := Choice
  Env := Env
  Call := Call
  Res := Res
  body := body J cfg
  exec c o ch w := w.exec c o ch
  env := Env.step
  crash c w := w.setClient c (.new (w.clients c).broker.bufferSize)

end

end RedisStreamClient.Impl
