import RedisStreamClient.Lib.Pool
import RedisStreamClient.Notifs.Broker
import RedisStreamClient.Redis.Server

/-!
# The operations of the client

What the client's goroutines do to shared state, one atomic operation at a time:
the Redis commands, the distributed lock, the `streamLocks` map under its mutex, the
notification broker, and the calls they start as goroutines.  `World` is the server
together with the memory of every client; `exec` says what each operation does.

A Redis command may meet a fault: it fails without effect, or takes effect while its
reply is lost.  The fault, the ID of an added entry, how much a capped stream is
trimmed and the case a select takes are the `Choice` of a step.
-/

namespace RedisStreamClient.Impl

open RedisStreamClient.Lib RedisStreamClient.Errs RedisStreamClient.Notifs
open RedisStreamClient.Redis

/-- A `redsync` mutex: its key and the value it locks the key with. -/
structure RedsyncMutex where
  /-- The key. -/
  name : String
  /-- What `WithGenValueFunc` returns. -/
  value : String
deriving DecidableEq, Repr

/-- `StreamLocksInfo`. -/
structure StreamLocksInfo where
  /-- `LBSInfo`. -/
  lbsInfo : LBSInfo
  /-- `RedsyncMutex`. -/
  redsyncMutex : RedsyncMutex
  /-- `AdditionalInfo`. -/
  additionalInfo : GoMap Value

/-- Calls of `metrics.Recorder`, without the clock readings they carry. -/
inductive Metric
  | mutexAliveSkip (stream : String)
  | reQueue (stream : String) (success : Bool)
  | ackAddGap (stream : String)
  | dlqRouting (stream : String)
  | reconciliationScan (requeued skippedAlive dlqRouted : Int)
  | startupRecovery (success : Bool) (unackedCount : Int)
  | lockAcquisitionAttempt (stream : String) (success : Bool)
  | lockExtensionAttempt (stream : String) (success : Bool)
  | lockReleaseAttempt (stream : String) (success : Bool)
  | streamProcessingStart (stream : String)
  | streamProcessingEnd (stream : String)
  | kspNotification (stream : String)
  | kspNotificationDropped
  | masterKeyspaceSetup (success : Bool)
  | topologyReinit (success : Bool)
deriving DecidableEq, Repr

/-- The operations. -/
inductive Op
  | xrange (stream start stop : String)
  | xack (stream group id : String)
  | xadd (stream : String) (maxLen : Int) (values : Values)
  | xdel (stream id : String)
  | existsKey (key : String)
  | xpending (stream group : String) (idle : Nat) (start stop : String) (count : Int)
  | xreadGroup (group consumer stream : String)
  | lock (m : RedsyncMutex)
  | extend (m : RedsyncMutex)
  | unlock (m : RedsyncMutex)
  | isContextDone
  | /-- `r.streamLocks[name] = info`, under the mutex. -/
    putStreamLocks (name : String) (info : StreamLocksInfo)
  | popStreamLocksInfo (name : String)
  | isStreamProcessingDone (name : String)
  | broker (o : Broker.Op)
  | /-- `time.Sleep(d)`. -/
    sleep (d : Int)
  | /-- A select between `ctx.Done()` and `time.After(d)`; true for the first. -/
    waitOrDone (d : Int)
  | /-- `go r.startExtendingKey(..)`. -/
    goStartExtendingKey (m : RedsyncMutex) (lbsInfo : LBSInfo) (info : GoMap Value)
  | record (m : Metric)

/-- The reply to an operation. -/
def Op.Reply : Op → Type
  | .xrange _ _ _ => Except Err (List XMessage)
  | .xack _ _ _ | .xdel _ _ | .existsKey _ => Except Err Int
  | .xadd _ _ _ => Except Err String
  | .xpending _ _ _ _ _ _ => Except Err (List String)
  | .xreadGroup _ _ _ => Except Err (List (String × List XMessage))
  | .lock _ => Option Err
  | .extend _ | .unlock _ => Bool × Option Err
  | .isContextDone | .isStreamProcessingDone _ | .waitOrDone _ => Bool
  | .popStreamLocksInfo _ => Option StreamLocksInfo
  | .broker o => o.Reply
  | .putStreamLocks _ _ | .sleep _ | .goStartExtendingKey _ _ _ | .record _ => Unit

/-- The signature of the client's operations. -/
@[reducible] def sig : Sig := ⟨Op, Op.Reply⟩

/-- An operation with its reply. -/
abbrev Act := (o : Op) × o.Reply

/-! ## The calls of a client -/

/-- What runs in a goroutine of its own, loops with their state. -/
inductive Call
  | claim (lbsInfo : LBSInfo)
  | doneStream (dataStreamName : String)
  | /-- The loop of `runReconciliationLoop`. -/
    reconcile (startup : Bool)
  | /-- The loop of `readLBSStream`. -/
    readLBSStream (consecutiveErrors currentRetryDelay : Int)
  | /-- The loop of `startExtendingKey`. -/
    startExtendingKey (m : RedsyncMutex) (lbsInfo : LBSInfo) (info : GoMap Value)
  | /-- A call on the client's broker. -/
    broker (f : Broker.Call)

/-- What the calls return. -/
inductive Res
  | /-- `Claim` returned. -/
    claimed (e : Option Err)
  | /-- `DoneStream` returned. -/
    doneStream (e : Option Err)
  | /-- `startExtendingKey` returned. -/
    extended (e : Option Err)
  | /-- A background loop ended. -/
    ended
  | /-- A call on the broker returned. -/
    broker (r : Broker.Res)

/-! ## The world -/

/-- The memory of a client. -/
structure Local where
  /-- `streamLocks`. -/
  streamLocks : GoMap StreamLocksInfo
  /-- The context of the LBS goroutines is done. -/
  ctxDone : Bool
  /-- `notificationBroker`. -/
  broker : Broker

/-- The server and the memory of every client. -/
structure World where
  /-- Redis. -/
  server : Server
  /-- The clients. -/
  clients : Nat → Local

/-- What a Redis command meets. -/
inductive Fault
  | /-- Nothing: it runs and its reply arrives. -/
    none
  | /-- It fails without effect. -/
    fail (e : Err)
  | /-- It takes effect, but its caller gets an error. -/
    lost (e : Err)

/-- What resolves an operation. -/
structure Choice where
  /-- The fault of a Redis command. -/
  fault : Fault
  /-- The ID of an added entry. -/
  newID : StreamID
  /-- How many entries a capped stream drops. -/
  trim : Nat
  /-- The case a select takes. -/
  case : Broker.Case

namespace World

variable (w : World)

/-- Replace the server. -/
def setServer (s : Server) : World := { w with server := s }

/-- Replace the memory of a client. -/
def setClient (c : Nat) (l : Local) : World :=
  { w with clients := Function.update w.clients c l }

/-- A Redis command under a fault. -/
def command {α : Type} (fault : Fault) (err : Err → α) (run : Server → Option (α × Server)) :
    Option (α × World × Option Call) :=
  match fault with
  | .none => (run w.server).map fun p ↦ (p.1, w.setServer p.2, none)
  | .fail e => some (err e, w, none)
  | .lost e => (run w.server).map fun p ↦ (err e, w.setServer p.2, none)

/-- One operation of a goroutine of client `c`. -/
def exec (c : Nat) : (o : Op) → Choice → World → Option (o.Reply × World × Option Call)
  | .xrange stream start stop, ch, w =>
    w.command ch.fault .error fun s ↦ some (s.xrange stream start stop, s)
  | .xack stream group id, ch, w =>
    w.command ch.fault .error fun s ↦ some (s.xack stream group id)
  | .xadd stream maxLen values, ch, w =>
    w.command ch.fault .error fun s ↦ s.xadd stream maxLen values ch.newID ch.trim
  | .xdel stream id, ch, w => w.command ch.fault .error fun s ↦ some (s.xdel stream id)
  | .existsKey key, ch, w => w.command ch.fault .error fun s ↦ some (s.existsKey key, s)
  | .xpending stream group idle start stop count, ch, w =>
    w.command ch.fault .error fun s ↦ some (s.xpending stream group idle start stop count, s)
  | .xreadGroup group consumer stream, ch, w =>
    w.command ch.fault .error fun s ↦ s.xreadGroup group consumer stream
  | .lock m, ch, w => w.command ch.fault some fun s ↦ some (s.lock m.name m.value)
  | .extend m, ch, w =>
    w.command ch.fault (fun e ↦ (false, some e)) fun s ↦ some (s.extend m.name m.value)
  | .unlock m, ch, w =>
    w.command ch.fault (fun e ↦ (false, some e)) fun s ↦ some (s.unlock m.name m.value)
  | .isContextDone, _, w => some ((w.clients c).ctxDone, w, none)
  | .putStreamLocks name info, _, w =>
    let l := w.clients c
    some ((), w.setClient c { l with streamLocks := l.streamLocks.insert name info }, none)
  | .popStreamLocksInfo name, _, w =>
    let l := w.clients c
    some (l.streamLocks.lookup name,
      w.setClient c { l with streamLocks := l.streamLocks.erase name }, none)
  | .isStreamProcessingDone name, _, w =>
    some (((w.clients c).streamLocks.lookup name).isNone, w, none)
  | .broker o, ch, w =>
    let l := w.clients c
    (l.broker.exec (fun _ ↦ l.ctxDone) o ch.case).map fun p ↦
      (p.1, w.setClient c { l with broker := p.2 }, none)
  | .sleep _, _, w => some ((), w, none)
  | .waitOrDone _, ch, w =>
    match ch.case with
    | .ctx => if (w.clients c).ctxDone then some (true, w, none) else none
    | _ => some (false, w, none)
  | .goStartExtendingKey m lbsInfo info, _, w =>
    some ((), w, some (.startExtendingKey m lbsInfo info))
  | .record _, _, w => some ((), w, none)

end World

/-! ## The environment -/

/-- Steps of the environment. -/
inductive Env
  | /-- A producer's `XADD`. -/
    produce (stream : String) (id : StreamID) (values : Values)
  | /-- A lock key expires. -/
    expire (key : String)
  | /-- Time passes. -/
    tick (ms : Nat)
  | /-- The context of a client's LBS goroutines is cancelled. -/
    cancel (c : Nat)

/-- One step of the environment. -/
def Env.step : Env → World → Option World
  | .produce stream id values, w => (w.server.xadd stream 0 values id 0).map fun p ↦ w.setServer p.2
  | .expire key, w => some (w.setServer (w.server.setKey key none))
  | .tick ms, w => some (w.setServer { w.server with now := w.server.now + ms })
  | .cancel c, w => some (w.setClient c { w.clients c with ctxDone := true })

end RedisStreamClient.Impl
