import RedisStreamClient.Impl.Client
import RedisStreamClient.Impl.MutexKey
import RedisStreamClient.Impl.Settled

/-!
# The life of a client

`Init`, `ReinitTopology` and `Done` of one client, with the goroutines they start: the
callbacks that `ForEachMaster` and `ForEachShard` run at the same time, the fan-in of
keyspace notifications from each subscription into `kspChan`, the listener that empties
it, and the goroutines of the LBS, whose operations are those of `Machine`.

A call of `ForEachMaster` is one operation that says which nodes it runs on, one `go`
statement per node, and the wait for all callbacks; the variables that its callbacks
share under a mutex are the fields of a `ForEach`.  What other clients do to Redis, the
topology of the cluster and the keyspace messages that arrive are up to the environment.
-/

namespace RedisStreamClient.Impl.Lifecycle

open RedisStreamClient.Lib RedisStreamClient.Errs RedisStreamClient.Notifs

/-! ## Configuration and state -/

/-- `ClusterMode`. -/
inductive ClusterMode
  | singleShard
  | oss
deriving DecidableEq, Repr

/-- The configuration of a client. -/
structure Config where
  /-- What the LBS goroutines read. -/
  client : Client
  /-- `clusterMode`. -/
  clusterMode : ClusterMode
  /-- `redisClient` is a `*redis.ClusterClient`. -/
  isClusterClient : Bool
  /-- `forceOverrideConfig`. -/
  forceOverrideConfig : Bool

/-- `redis.Message`. -/
structure Message where
  /-- `Channel`. -/
  channel : String
  /-- `Payload`. -/
  payload : String
deriving DecidableEq, Repr

/-- A `redis.PubSub`. -/
structure PubSub where
  /-- The node it was opened on; `none` if it was opened through the client itself. -/
  node : Option String
  /-- `Close` was not called. -/
  isOpen : Bool
deriving DecidableEq, Repr

/-- The callbacks of `ForEachMaster` and `ForEachShard`. -/
inductive Callback
  | /-- The one of `ensureClusterSettled`, for every node. -/
    report
  | /-- The one of `enableKeyspaceNotifsOnMasters`. -/
    enable (reapply : Bool)
  | /-- The one of `subscribeToExpiredEventsOSS`. -/
    subscribe
deriving DecidableEq, Repr

/-- A call of `ForEachMaster` or `ForEachShard`, with the variables its callbacks share. -/
structure ForEach where
  /-- `fn`. -/
  callback : Callback
  /-- The nodes whose callbacks have not returned. -/
  outstanding : List String
  /-- The first error that a callback returned. -/
  err : Option Err
  /-- `succeeded`. -/
  succeeded : Nat
  /-- `failed`. -/
  failed : Nat
  /-- `reports`. -/
  reports : List NodeReport

/-- A client, its cluster and the rest of Redis. -/
structure State where
  /-- Redis, and the client's memory as that of client 0. -/
  world : World
  /-- The masters of the cluster. -/
  masters : {l : List String // l.Nodup}
  /-- All nodes of the cluster. -/
  nodes : List String
  /-- `notify-keyspace-events` of a node; `none` is the one the client itself reaches. -/
  notifyKeyspaceEvents : Option String → String
  /-- The calls of `ForEachMaster` and `ForEachShard` so far. -/
  forEachs : List ForEach
  /-- The subscriptions opened so far. -/
  pubSubs : List PubSub
  /-- `r.oss.pubSubs`. -/
  ossPubSubs : List Nat
  /-- `r.pubSub`. -/
  pubSub : Option Nat
  /-- What is buffered in `r.kspChan`. -/
  kspChan : List Message
  /-- `r.lbsCtxCancelFunc` is set. -/
  lbsCtxCancelFunc : Bool

/-! ## Operations -/

/-- What runs in a goroutine of its own, loops with their state. -/
inductive Call
  | /-- A call or goroutine of the LBS. -/
    client (f : Impl.Call)
  | init
  | reinitTopology
  | done
  | /-- The loop of `cleanup`, and what follows it. -/
    cleanup
  | /-- A callback on one node. -/
    callback (g : Nat) (f : Callback) (node : String)
  | /-- The loop of `fanInPubSub`. -/
    fanIn (ps : Nat)
  | /-- The loop of `listenKsp`. -/
    listenKsp

/-- What the calls return. -/
inductive Res
  | /-- A call or goroutine of the LBS ended. -/
    client (r : Impl.Res)
  | /-- `Init` returned. -/
    init (e : Option Err)
  | /-- `ReinitTopology` returned. -/
    reinitTopology (e : Option Err)
  | /-- `Done` returned. -/
    done (e : Option Err)
  | /-- A goroutine ended. -/
    ended

/-- The operations. -/
inductive Op
  | /-- An operation of the LBS goroutines. -/
    client (o : Impl.Op)
  | /-- `go f()`. -/
    go (f : Call)
  | /-- The nodes that `ForEachMaster`, or `ForEachShard`, runs a callback on. -/
    forEach (f : Callback)
  | /-- A callback returns. -/
    callbackDone (g : Nat) (node : String) (err : Option Err)
  | /-- `wg.Wait()`, and what the callbacks left. -/
    wait (g : Nat)
  | /-- `reports = append(reports, rep)`, under the mutex. -/
    appendReport (g : Nat) (rep : NodeReport)
  | /-- `succeeded++` or `failed++`, under the mutex. -/
    countSetup (g : Nat) (ok : Bool)
  | clusterInfo (node : String)
  | clusterNodes (node : String)
  | reloadState
  | configGet (node : Option String)
  | configSet (node : Option String) (value : String)
  | pSubscribe (node : Option String)
  | /-- `r.oss.add(ps)`. -/
    ossAdd (ps : Nat)
  | /-- `r.oss.closeAll()`. -/
    ossCloseAll
  | /-- `r.pubSub = ps`. -/
    setPubSub (ps : Nat)
  | /-- A read of `r.pubSub`. -/
    getPubSub
  | /-- `ps.Close()`. -/
    closePubSub (ps : Nat)
  | /-- The next message of a subscription's channel; `none` once it is closed. -/
    nextMessage (ps : Nat)
  | /-- The select of `fanInPubSub`; false for its default. -/
    trySendKsp (m : Message)
  | /-- The select of `listenKsp`; `none` when the context is done. -/
    kspSelect
  | /-- `len(r.kspChan)`. -/
    kspLen
  | /-- `<-r.kspChan`. -/
    kspReceive
  | /-- `r.lbsCtxCancelFunc = cancelFunc`, of a new context. -/
    withCancel
  | /-- `r.lbsCtxCancelFunc()`. -/
    cancelLBS
  | xGroupCreateMkStream
  | /-- The names in `streamLocks`, in the order a range over the map takes. -/
    streamNames
  | /-- `r.streamLocks[name].AdditionalInfo`, empty if there is none. -/
    additionalInfo (name : String)

/-- The reply to an operation. -/
def Op.Reply : Op → Type
  | .client o => o.Reply
  | .forEach _ => Except Err (Nat × List String)
  | .wait _ => ForEach
  | .clusterInfo _ | .clusterNodes _ | .configGet _ => Except Err String
  | .configSet _ _ | .closePubSub _ | .xGroupCreateMkStream => Option Err
  | .pSubscribe _ | .kspLen => Nat
  | .getPubSub => Option Nat
  | .nextMessage _ | .kspSelect => Option Message
  | .trySendKsp _ => Bool
  | .kspReceive => Message
  | .streamNames => List String
  | .additionalInfo _ => GoMap Value
  | .go _ | .callbackDone _ _ _ | .appendReport _ _ | .countSetup _ _ | .reloadState | .ossAdd _
  | .ossCloseAll | .setPubSub _ | .withCancel | .cancelLBS => Unit

/-- The signature. -/
@[reducible] def sig : Sig := ⟨Op, Op.Reply⟩

namespace Op

/-- Run a program of the LBS operations. -/
def lift {A : Type} (p : Prog Impl.sig A) : Prog sig A := p.embed (T := sig) .client fun _ r ↦ r

/-- An operation whose reply is not looked at. -/
def act (o : Op) : Prog sig Unit := .perform (S := sig) o >>= fun _ ↦ .ret ()

/-- A call of the metrics recorder. -/
def metric (m : Metric) : Prog sig Unit := lift (Impl.Op.metric m)

/-- The start of `ForEachMaster` or `ForEachShard`. -/
def forEachNodes (f : Callback) : Prog sig (Except Err (Nat × List String)) :=
  .perform (S := sig) (.forEach f)

/-- `wg.Wait()`. -/
def waitAll (g : Nat) : Prog sig ForEach := .perform (S := sig) (.wait g)

/-- `node.ClusterInfo`. -/
def getClusterInfo (node : String) : Prog sig (Except Err String) :=
  .perform (S := sig) (.clusterInfo node)

/-- `node.ClusterNodes`. -/
def getClusterNodes (node : String) : Prog sig (Except Err String) :=
  .perform (S := sig) (.clusterNodes node)

/-- `client.ConfigGet`, of `notify-keyspace-events`. -/
def getConfig (node : Option String) : Prog sig (Except Err String) :=
  .perform (S := sig) (.configGet node)

/-- `client.ConfigSet`, of `notify-keyspace-events`. -/
def setConfig (node : Option String) (value : String) : Prog sig (Option Err) :=
  .perform (S := sig) (.configSet node value)

/-- `PSubscribe`. -/
def subscribeTo (node : Option String) : Prog sig Nat := .perform (S := sig) (.pSubscribe node)

/-- A read of `r.pubSub`. -/
def readPubSub : Prog sig (Option Nat) := .perform (S := sig) .getPubSub

/-- `r.pubSub.Close()`. -/
def closeSub (ps : Nat) : Prog sig (Option Err) := .perform (S := sig) (.closePubSub ps)

/-- The next message of a subscription. -/
def receiveFrom (ps : Nat) : Prog sig (Option Message) := .perform (S := sig) (.nextMessage ps)

/-- The select of `fanInPubSub`. -/
def sendKsp (m : Message) : Prog sig Bool := .perform (S := sig) (.trySendKsp m)

/-- The select of `listenKsp`. -/
def selectKsp : Prog sig (Option Message) := .perform (S := sig) .kspSelect

/-- `len(r.kspChan)`. -/
def lenKsp : Prog sig Nat := .perform (S := sig) .kspLen

/-- `r.redisClient.XGroupCreateMkStream`. -/
def createGroup : Prog sig (Option Err) := .perform (S := sig) .xGroupCreateMkStream

/-- The names in `streamLocks`. -/
def lockedNames : Prog sig (List String) := .perform (S := sig) .streamNames

/-- The additional information of a stream. -/
def infoOf (name : String) : Prog sig (GoMap Value) := .perform (S := sig) (.additionalInfo name)

end Op

/-! ## `ForEachMaster` and `ForEachShard` -/

/-- One `go` statement per node. -/
def spawn (g : Nat) (f : Callback) : List String → Prog sig Unit
  | [] => return ()
  | node :: nodes => do
    Op.act (.go (.callback g f node))
    spawn g f nodes

/-- `ForEachMaster`, or `ForEachShard` for the callback that is for every node.  It returns
the first error of a callback, or else what the callbacks left in their variables. -/
def forEachNode (f : Callback) : Prog sig (Except Err ForEach) := do
  match ← Op.forEachNodes f with
  | .error err => return .error err
  | .ok (g, nodes) =>
    spawn g f nodes
    let res ← Op.waitAll g
    match res.err with
    | some err => return .error err
    | none => return .ok res

section

variable (J : Json) (r : Config)

/-! ## The topology -/

/-- What one node reports, in the callback of `ensureClusterSettled`. -/
def askNode (node : String) : Prog sig NodeReport := do
  match ← Op.getClusterInfo node with
  | .error ierr => return ⟨node, "", "", some ierr⟩
  | .ok info =>
    match ← Op.getClusterNodes node with
    | .error nerr => return ⟨node, clusterInfoField info "cluster_state", "", some nerr⟩
    | .ok nodes => return ⟨node, clusterInfoField info "cluster_state", slotOwnership nodes, none⟩

/-- `ensureClusterSettled`. -/
def ensureClusterSettled : Prog sig (Option Err) := do
  match ← forEachNode .report with
  | .error err => return some (.redis .reinitTopology err)
  | .ok res => return evaluateSettled res.reports

/-! ## Keyspace notifications -/

/-- `enableKeyspaceNotifsOn`. -/
def enableKeyspaceNotifsOn (node : Option String) (reapply : Bool) : Prog sig (Option Err) := do
  match ← Op.getConfig node with
  | .error err => return some (.redis .enableKeyspaceNotification err)
  | .ok v =>
    if v ≠ "" ∧ ¬ r.forceOverrideConfig ∧ ¬ reapply then
      return some .existingConfigWithoutOverride
    else
      Op.setConfig node Configs.keyspacePatternForExpiredEvents

/-- `enableKeyspaceNotifsOnMasters`. -/
def enableKeyspaceNotifsOnMasters (reapply : Bool) : Prog sig (Option Err) := do
  match ← forEachNode (.enable reapply) with
  | .error err => return some err
  | .ok res =>
    if res.succeeded = 0 then return some .keyspaceNotifsAllMastersFailed else return none

/-- `enableKeyspaceNotifsForExpiredEvents`. -/
def enableKeyspaceNotifsForExpiredEvents (reapply : Bool) : Prog sig (Option Err) :=
  if r.clusterMode = .oss then
    if ¬ r.isClusterClient then return some .clusterClientRequired
    else enableKeyspaceNotifsOnMasters reapply
  else
    enableKeyspaceNotifsOn r none reapply

/-- `fanInPubSub`. -/
def fanInPubSub (ps : Nat) : Prog sig Unit := Op.act (.go (.fanIn ps))

/-- `subscribeToExpiredEventsOSS`. -/
def subscribeToExpiredEventsOSS : Prog sig Unit :=
  if ¬ r.isClusterClient then return ()
  else do
    -- an error is logged only
    let _ ← forEachNode .subscribe
    return ()

/-- `subscribeToExpiredEvents`. -/
def subscribeToExpiredEvents : Prog sig Unit :=
  if r.clusterMode = .oss then subscribeToExpiredEventsOSS r
  else do
    let ps ← Op.subscribeTo none
    Op.act (.setPubSub ps)
    fanInPubSub ps

/-! ## The callbacks -/

/-- What a callback does on one node, and the error it returns. -/
def callback (g : Nat) (node : String) : Callback → Prog sig (Option Err)
  | .report => do
    let rep ← askNode node
    Op.act (.appendReport g rep)
    return none
  | .enable reapply => do
    match ← enableKeyspaceNotifsOn r (some node) reapply with
    | some setupErr =>
      if setupErr.isExistingConfigWithoutOverride then return some setupErr
      else
        Op.act (.countSetup g false)
        Op.metric (.masterKeyspaceSetup false)
        return none
    | none =>
      Op.act (.countSetup g true)
      Op.metric (.masterKeyspaceSetup true)
      return none
  | .subscribe => do
    let ps ← Op.subscribeTo (some node)
    Op.act (.ossAdd ps)
    fanInPubSub ps
    return none

/-! ## The calls -/

/-- `Init`. -/
def init : Prog sig (Option Err) := do
  if r.clusterMode = .oss ∧ ¬ r.isClusterClient then
    return some .clusterClientRequired
  else
    match ← enableKeyspaceNotifsForExpiredEvents r false with
    | some keyspaceErr => return some keyspaceErr
    | none =>
      subscribeToExpiredEvents r
      Op.act .withCancel
      match ← Op.createGroup with
      | some err =>
        if "BUSYGROUP".toList <:+: err.error.toList then start
        else return some (.redis .createLBSStream err)
      | none => start
where
  /-- Start the goroutines. -/
  start : Prog sig (Option Err) := do
    Op.act (.go (.client (.readLBSStream 0 r.client.initialRetryDelay)))
    Op.act (.go .listenKsp)
    Op.act (.go (.client (.reconcile true)))
    return none

/-- `ReinitTopology`. -/
def reinitTopology : Prog sig (Option Err) := do
  if r.clusterMode ≠ .oss then
    return none
  else if ¬ r.isClusterClient then
    Op.metric (.topologyReinit false)
    return some .clusterClientRequired
  else
    match ← ensureClusterSettled with
    | some err =>
      Op.metric (.topologyReinit false)
      return some err
    | none =>
      Op.act .reloadState
      match ← enableKeyspaceNotifsForExpiredEvents r true with
      | some err =>
        Op.metric (.topologyReinit false)
        return some err
      | none =>
        Op.act .ossCloseAll
        subscribeToExpiredEvents r
        Op.metric (.topologyReinit true)
        return none

/-- The loop of `Done` over the stream names. -/
def doneStreams : List String → Prog sig (Option Err)
  | [] => return none
  | name :: names => do
    match ← Op.lift (doneStream r.client name) with
    | some err => return some err
    | none => doneStreams names

/-- `Done`, up to its `cleanup`. -/
def done : Prog sig (Res ⊕ Call) := do
  match ← doneStreams r (← Op.lockedNames) with
  | some err => return .inl (.done (some err))
  | none => return .inr .cleanup

/-- One turn of the loop of `cleanup`, or what follows it. -/
def cleanup : Prog sig (Res ⊕ Call) := do
  if 0 < (← Op.lenKsp) then receive else release
where
  /-- Drop a message. -/
  receive : Prog sig (Res ⊕ Call) := do
    Op.act .kspReceive
    return .inr .cleanup
  /-- Close the broker, the context and the subscriptions. -/
  release : Prog sig (Res ⊕ Call) := do
    let _ ← Op.lift (Broker.close.embed (T := Impl.sig) .broker fun _ x ↦ x)
    Op.act .cancelLBS
    match ← Op.readPubSub with
    | some ps =>
      match ← Op.closeSub ps with
      | some err => return .inl (.done (some (.redis .closePubSub err)))
      | none => closeAll
    | none => closeAll
  /-- Close the subscriptions on the masters. -/
  closeAll : Prog sig (Res ⊕ Call) := do
    Op.act .ossCloseAll
    return .inl (.done none)

/-! ## The goroutines -/

/-- One turn of the loop of `fanInPubSub`. -/
def fanIn (ps : Nat) : Prog sig (Res ⊕ Call) := do
  match ← Op.receiveFrom ps with
  | none => return .inl .ended
  | some msg =>
    if ← Op.sendKsp msg then
      return .inr (.fanIn ps)
    else
      Op.metric .kspNotificationDropped
      return .inr (.fanIn ps)

/-- One turn of the loop of `listenKsp`. -/
def listenKsp : Prog sig (Res ⊕ Call) := do
  match ← Op.selectKsp with
  | none => return .inl .ended
  | some kspNotif => relay kspNotif
where
  /-- Announce an expired stream. -/
  relay (kspNotif : Message) : Prog sig (Res ⊕ Call) :=
    match extractStreamnameFromKspChannel kspNotif.channel with
    | .error _ => return .inr .listenKsp
    | .ok streamName => do
      Op.metric (.kspNotification streamName)
      match createByKspNotification streamName kspNotif.payload with
      | .error _ => return .inr .listenKsp
      | .ok lbsInfo =>
        let additionalInfo ← Op.infoOf lbsInfo.dataStreamName
        let _ ← Op.lift (Impl.Op.sendNotif (make .streamExpired lbsInfo additionalInfo))
        return .inr .listenKsp

/-- The code of a call. -/
def body : Call → Prog sig (Res ⊕ Call)
  | .client f => Op.lift (Impl.body J (fun _ ↦ r.client) 0 f) >>= fun x ↦
      .ret (x.map .client .client)
  | .init => init r >>= fun e ↦ .ret (.inl (.init e))
  | .reinitTopology => reinitTopology r >>= fun e ↦ .ret (.inl (.reinitTopology e))
  | .done => done r
  | .cleanup => cleanup
  | .callback g f node => do
    let err ← callback r g node f
    Op.act (.callbackDone g node err)
    return .inl .ended
  | .fanIn ps => fanIn ps
  | .listenKsp => listenKsp

end

/-! ## The machine -/

/-- What resolves an operation. -/
structure Choice where
  /-- The choice of an operation of the LBS; its fault is that of any command. -/
  base : Impl.Choice
  /-- What a node answers about the cluster. -/
  text : String
  /-- The message that arrives on a subscription. -/
  message : Option Message
  /-- The order of a range over a map. -/
  names : List String

/-- A command that reads, under a fault. -/
def reading {α : Type} (fault : Fault) (value : α) : Except Err α :=
  match fault with
  | .none => .ok value
  | .fail e | .lost e => .error e

/-- The error of a command, under a fault. -/
def faultErr : Fault → Option Err
  | .none => none
  | .fail e | .lost e => some e

namespace State

variable (s : State)

/-- Change a call of `ForEachMaster` or `ForEachShard`. -/
def modifyForEach (g : Nat) (f : ForEach → ForEach) : State :=
  { s with forEachs := s.forEachs.modify g f }

/-- Close the subscriptions that a test picks. -/
def close (p : Nat → Bool) : State :=
  { s with pubSubs := s.pubSubs.mapIdx fun ps x ↦ if p ps then { x with isOpen := false } else x }

/-- Set `notify-keyspace-events` of a node. -/
def configure (node : Option String) (value : String) : State :=
  { s with notifyKeyspaceEvents := Function.update s.notifyKeyspaceEvents node value }

/-- Set whether the context of the LBS goroutines is done. -/
def setCtxDone (b : Bool) : State :=
  { s with world := s.world.setClient 0 { s.world.clients 0 with ctxDone := b } }

/-- The nodes a callback runs on. -/
def nodesFor : Callback → List String
  | .report => s.nodes
  | .enable _ | .subscribe => s.masters.1

/-- One operation. -/
def exec : (o : Op) → Choice → State → Option (o.Reply × State × Option Call)
  | .client o, ch, s =>
    (s.world.exec 0 o ch.base).map fun p ↦ (p.1, { s with world := p.2.1 }, p.2.2.map .client)
  | .go f, _, s => some ((), s, some f)
  | .forEach f, ch, s =>
    match ch.base.fault with
    | .none => some (.ok (s.forEachs.length, s.nodesFor f),
        { s with forEachs := s.forEachs ++ [⟨f, s.nodesFor f, none, 0, 0, []⟩] }, none)
    | .fail e | .lost e => some (.error e, s, none)
  | .callbackDone g node err, _, s =>
    some ((), s.modifyForEach g fun x ↦
      { x with outstanding := x.outstanding.erase node, err := x.err <|> err }, none)
  | .wait g, _, s =>
    (s.forEachs[g]?).bind fun x ↦ if x.outstanding = [] then some (x, s, none) else none
  | .appendReport g rep, _, s =>
    some ((), s.modifyForEach g fun x ↦ { x with reports := x.reports ++ [rep] }, none)
  | .countSetup g ok, _, s =>
    some ((), s.modifyForEach g fun x ↦
      if ok then { x with succeeded := x.succeeded + 1 } else { x with failed := x.failed + 1 }, none)
  | .clusterInfo _, ch, s => some (reading ch.base.fault ch.text, s, none)
  | .clusterNodes _, ch, s => some (reading ch.base.fault ch.text, s, none)
  | .reloadState, _, s => some ((), s, none)
  | .configGet node, ch, s => some (reading ch.base.fault (s.notifyKeyspaceEvents node), s, none)
  | .configSet node value, ch, s =>
    match ch.base.fault with
    | .none => some (none, s.configure node value, none)
    | .fail e => some (some e, s, none)
    | .lost e => some (some e, s.configure node value, none)
  | .pSubscribe node, _, s =>
    some (s.pubSubs.length, { s with pubSubs := s.pubSubs ++ [⟨node, true⟩] }, none)
  | .ossAdd ps, _, s => some ((), { s with ossPubSubs := s.ossPubSubs ++ [ps] }, none)
  | .ossCloseAll, _, s =>
    some ((), { s.close (fun ps ↦ ps ∈ s.ossPubSubs) with ossPubSubs := [] }, none)
  | .setPubSub ps, _, s => some ((), { s with pubSub := some ps }, none)
  | .getPubSub, _, s => some (s.pubSub, s, none)
  | .closePubSub ps, ch, s => some (faultErr ch.base.fault, s.close (· == ps), none)
  | .nextMessage ps, ch, s =>
    match ch.message with
    | some m => some (some m, s, none)
    | none => if s.pubSubs[ps]?.any (·.isOpen) then none else some (none, s, none)
  | .trySendKsp m, _, s =>
    if s.kspChan.length < Configs.defaultKspChanSize then
      some (true, { s with kspChan := s.kspChan ++ [m] }, none)
    else some (false, s, none)
  | .kspSelect, ch, s =>
    match ch.base.case with
    | .ctx => if (s.world.clients 0).ctxDone then some (none, s, none) else none
    | _ =>
      match s.kspChan with
      | m :: ms => some (some m, { s with kspChan := ms }, none)
      | [] => none
  | .kspLen, _, s => some (s.kspChan.length, s, none)
  | .kspReceive, _, s =>
    match s.kspChan with
    | m :: ms => some (m, { s with kspChan := ms }, none)
    | [] => none
  | .withCancel, _, s => some ((), { s.setCtxDone false with lbsCtxCancelFunc := true }, none)
  | .cancelLBS, _, s =>
    -- a call of the nil function panics
    if s.lbsCtxCancelFunc then some ((), s.setCtxDone true, none) else none
  | .xGroupCreateMkStream, ch, s => some (faultErr ch.base.fault, s, none)
  | .streamNames, ch, s =>
    if ch.names.Nodup ∧ ch.names.toFinset = (s.world.clients 0).streamLocks.keys then
      some (ch.names, s, none)
    else none
  | .additionalInfo name, _, s =>
    some (((s.world.clients 0).streamLocks.lookup name).elim (∅ : GoMap Value) (·.additionalInfo),
      s, none)

end State

/-- Steps of the environment. -/
inductive Env
  | /-- Other clients, producers and the clock change Redis. -/
    redis (s : Redis.Server)
  | /-- The topology of the cluster changes. -/
    topology (masters : {l : List String // l.Nodup}) (nodes : List String)
  | /-- The context that `Init` was given is cancelled. -/
    cancel

/-- One step of the environment. -/
def Env.step : Env → State → Option State
  | .redis server, s => some { s with world := s.world.setServer server }
  | .topology masters nodes, s => some { s with masters := masters, nodes := nodes }
  | .cancel, s => some (s.setCtxDone true)

/-- One client in its cluster. -/
@[reducible] def machine (J : Json) (r : Config) : Machine sig where
  Owner := Unit
  State := State
  Choice := Choice
  Env := Env
  Call := Call
  Res := Res
  body _ := body J r
  exec _ o ch s := State.exec o ch s
  env := Env.step
  crash _ s := { s.close (fun _ ↦ true) with
    world := s.world.setClient 0 (.new (s.world.clients 0).broker.bufferSize)
    ossPubSubs := [], pubSub := none, kspChan := [], lbsCtxCancelFunc := false }

/-! ## What the operations do -/

/-- The channel of keyspace notifications, the subscriptions and the calls of
`ForEachMaster` are the same. -/
structure State.Same (s s' : State) : Prop where
  /-- `kspChan`. -/
  kspChan : s'.kspChan = s.kspChan
  /-- The subscriptions. -/
  pubSubs : s'.pubSubs = s.pubSubs
  /-- `r.oss.pubSubs`. -/
  ossPubSubs : s'.ossPubSubs = s.ossPubSubs
  /-- `r.pubSub`. -/
  pubSub : s'.pubSub = s.pubSub
  /-- The calls of `ForEachMaster` and `ForEachShard`. -/
  forEachs : s'.forEachs = s.forEachs

/-- The operations that may change one of them. -/
def Op.Touches : Op → Prop
  | .forEach _ | .callbackDone _ _ _ | .appendReport _ _ | .countSetup _ _ | .pSubscribe _
  | .ossAdd _ | .ossCloseAll | .setPubSub _ | .closePubSub _ | .trySendKsp _ | .kspSelect
  | .kspReceive => True
  | _ => False

/-- An operation that takes a message out of `kspChan`. -/
def Op.takes : (o : Op) → o.Reply → Bool
  | .kspSelect, m => (show Option Message from m).isSome
  | .kspReceive, _ => true
  | _, _ => false

namespace State

variable {s s' : State} {ch : Choice} {f : Option Call}

theorem Same.refl (s : State) : Same s s := ⟨rfl, rfl, rfl, rfl, rfl⟩

theorem some_inj {α : Type} {x y : α} {f' : Option Call}
    (h : some (x, s, f) = some (y, s', f')) : x = y ∧ s = s' ∧ f = f' := by
  simpa using h

/-- **The frame.**  The other operations change none of them. -/
theorem exec_same {o : Op} {x : o.Reply} (h : exec o ch s = some (x, s', f)) (ho : ¬ o.Touches) :
    Same s s' := by
  cases o with
  | client o =>
    obtain ⟨p, -, hp⟩ := Option.map_eq_some_iff.1 h
    obtain ⟨-, hp⟩ := Prod.mk.inj hp
    obtain ⟨rfl, -⟩ := Prod.mk.inj hp
    exact ⟨rfl, rfl, rfl, rfl, rfl⟩
  | wait g =>
    obtain ⟨y, -, hy⟩ := Option.bind_eq_some_iff.1 h
    split at hy
    · obtain ⟨-, rfl, -⟩ := some_inj hy
      exact .refl s
    · cases hy
  | configSet node value =>
    rw [exec] at h
    split at h <;>
    · obtain ⟨-, rfl, -⟩ := some_inj h
      exact ⟨rfl, rfl, rfl, rfl, rfl⟩
  | nextMessage ps =>
    rw [exec] at h
    split at h
    · obtain ⟨-, rfl, -⟩ := some_inj h
      exact .refl s
    · split at h
      · cases h
      · obtain ⟨-, rfl, -⟩ := some_inj h
        exact .refl s
  | cancelLBS =>
    rw [exec] at h
    split at h
    · obtain ⟨-, rfl, -⟩ := some_inj h
      exact ⟨rfl, rfl, rfl, rfl, rfl⟩
    · cases h
  | streamNames =>
    rw [exec] at h
    split at h
    · obtain ⟨-, rfl, -⟩ := some_inj h
      exact .refl s
    · cases h
  | forEach _ | callbackDone _ _ _ | appendReport _ _ | countSetup _ _ | pSubscribe _ | ossAdd _
  | ossCloseAll | setPubSub _ | closePubSub _ | trySendKsp _ | kspSelect | kspReceive =>
    exact absurd trivial ho
  | _ =>
    rw [exec] at h
    obtain ⟨-, rfl, -⟩ := some_inj h
    exact ⟨rfl, rfl, rfl, rfl, rfl⟩

/-- **What the operations do to `kspChan`**: take its first message, or append to it. -/
theorem exec_kspChan {o : Op} {x : o.Reply} (h : exec o ch s = some (x, s', f)) :
    (o.takes x = true ∧ ∃ m, s.kspChan = m :: s'.kspChan) ∨
      (o.takes x = false ∧ s.kspChan <+: s'.kspChan) := by
  have hsame (ho : o.takes x = false) (heq : s'.kspChan = s.kspChan) :
      o.takes x = false ∧ s.kspChan <+: s'.kspChan := ⟨ho, by rw [heq]⟩
  by_cases ho : o.Touches
  · cases o with
    | forEach _ =>
      rw [exec] at h
      split at h <;>
      · obtain ⟨-, rfl, -⟩ := some_inj h
        exact .inr (hsame rfl rfl)
    | trySendKsp m =>
      rw [exec] at h
      split at h
      · obtain ⟨-, rfl, -⟩ := some_inj h
        exact .inr ⟨rfl, List.prefix_append _ _⟩
      · obtain ⟨-, rfl, -⟩ := some_inj h
        exact .inr (hsame rfl rfl)
    | kspSelect =>
      rw [exec] at h
      split at h
      · split at h
        · obtain ⟨rfl, rfl, -⟩ := some_inj h
          exact .inr (hsame rfl rfl)
        · cases h
      · split at h
        · next m ms hms =>
          obtain ⟨rfl, rfl, -⟩ := some_inj h
          exact .inl ⟨rfl, m, hms⟩
        · cases h
    | kspReceive =>
      rw [exec] at h
      split at h
      · next m ms hms =>
        obtain ⟨-, rfl, -⟩ := some_inj h
        exact .inl ⟨rfl, m, hms⟩
      · cases h
    | callbackDone _ _ _ | appendReport _ _ | countSetup _ _ | pSubscribe _ | ossAdd _
    | ossCloseAll | setPubSub _ | closePubSub _ =>
      rw [exec] at h
      obtain ⟨-, rfl, -⟩ := some_inj h
      exact .inr (hsame rfl rfl)
    | _ => exact ho.elim
  · refine .inr (hsame ?_ (exec_same h ho).kspChan)
    cases o <;> first | rfl | exact absurd trivial ho

end State

end RedisStreamClient.Impl.Lifecycle
