import RedisStreamClient.Impl.Client

/-!
# What a goroutine is doing

The contract that every goroutine of a client keeps.  A `Session` is what a goroutine
has learnt from the replies it got and what it may do next: a recoverer reads an
entry, checks its lock, acknowledges it and, if the acknowledgement counted, adds it
again before deleting it; `DoneStream` acknowledges, deletes and unlocks what it
popped; the reader locks, records and announces the entries it was given one by one;
an extender extends only while its stream is recorded.

`Session.Ok` says which operations are allowed, `Session.next` what is learnt, and
`contract` proves that all code obeys.  Everything proved about interleavings of the
client's goroutines rests on this contract and not on their code.
-/

namespace RedisStreamClient.Impl

open RedisStreamClient.Lib RedisStreamClient.Errs RedisStreamClient.Notifs
open RedisStreamClient.Redis

/-- The commands that write to the server. -/
def Op.Writes : Op → Prop
  | .xack _ _ _ | .xadd _ _ _ | .xdel _ _ | .xreadGroup _ _ _ | .lock _ | .extend _ | .unlock _ =>
    True
  | _ => False

/-- How far a recoverer is with an entry. -/
inductive Stage
  | /-- It has not started. -/
    idle
  | /-- It found no entry `id`. -/
    missing (id : String)
  | /-- It read the entry. -/
    found (entry : LBSEntry)
  | /-- It found the lock of the entry's stream `name` gone. -/
    dead (entry : LBSEntry) (name : String)
  | /-- Its acknowledgement took the entry off the pending list; `name` is `none` for an
    entry that cannot be parsed. -/
    won (entry : LBSEntry) (name : Option String)
  | /-- It added the successor, to the DLQ or to the LBS. -/
    added (entry : LBSEntry) (toDLQ : Bool)
  | /-- It deleted the entry after that. -/
    cleared (entry : LBSEntry) (toDLQ : Bool)
  | /-- It acknowledged the entry but could not add the successor. -/
    gap (entry : LBSEntry)
  | /-- Without a DLQ, it dropped the entry. -/
    dropped (entry : LBSEntry)
  | /-- It was too late, or found nothing to recover. -/
    lost
  | /-- It left the entry to its live owner. -/
    skipped
  | /-- A command failed. -/
    failed

namespace Stage

/-- Between two entries: nothing is owed.  An entry without an ID is left alone. -/
def Resting : Stage → Prop
  | .idle | .cleared _ _ | .dropped _ | .lost | .skipped | .failed => True
  | .found e => e.id = ""
  | _ => False

variable (J : Json) (r : Client)

/-- The acknowledgements a recoverer may send. -/
def OkAck (id : String) : Stage → Prop
  | .missing i => id = i
  | .found e => id = e.id ∧ ∃ err, e.dataStreamName J = .error err
  | .dead e _ => id = e.id
  | _ => False

/-- What a recoverer may add, and where: the successor to the LBS while the retries
last, else a copy to the DLQ. -/
def OkAdd (stream : String) (maxLen : Int) (values : Values) : Stage → Prop
  | .won e (some _) =>
    (wrap64 (e.retryCount + 1) ≤ r.recoveryConfig.maxRetries ∧ stream = r.lbsName ∧ maxLen = 0 ∧
      values = e.requeued (wrap64 (e.retryCount + 1))) ∨
    (r.recoveryConfig.maxRetries < wrap64 (e.retryCount + 1) ∧
      r.recoveryConfig.dlqStream ≠ "" ∧ stream = r.recoveryConfig.dlqStream ∧
      maxLen = r.recoveryConfig.dlqMaxLen ∧
      values = e.deadLettered (wrap64 (e.retryCount + 1)) Configs.dlqReasonMaxRetries)
  | .won e none =>
    r.recoveryConfig.dlqStream ≠ "" ∧ stream = r.recoveryConfig.dlqStream ∧
      maxLen = r.recoveryConfig.dlqMaxLen ∧
      values = e.deadLettered e.retryCount Configs.dlqReasonUnparseable
  | _ => False

/-- What a recoverer may delete from the LBS. -/
def OkDel (id : String) : Stage → Prop
  | .added e _ => id = e.id
  | .won e _ => r.recoveryConfig.dlqStream = "" ∧ id = e.id
  | _ => False

/-- An entry was read. -/
def onRange (id : String) : Except Err (List XMessage) → Stage
  | .error _ => .failed
  | .ok [] => .missing id
  | .ok (m :: _) => .found ⟨id, m.values⟩

/-- The lock of the entry was checked. -/
def onExists : Stage → Except Err Int → Stage
  | .found e, .ok n =>
    match e.dataStreamName J with
    | .ok name => if 0 < n then .skipped else .dead e name
    | .error _ => .failed
  | _, _ => .failed

/-- An acknowledgement got its reply. -/
def onAck : Stage → Except Err Int → Stage
  | .missing _, _ => .lost
  | .found e, .ok n => if n = 0 then .lost else .won e none
  | .dead e name, .ok n => if n = 0 then .lost else .won e (some name)
  | _, _ => .failed

/-- Whether an acknowledged entry goes to the DLQ. -/
def goesToDLQ (e : LBSEntry) : Option String → Bool
  | some _ => r.recoveryConfig.maxRetries < wrap64 (e.retryCount + 1)
  | none => true

/-- An addition got its reply. -/
def onAdd : Stage → Except Err String → Stage
  | .won e name, .ok _ => .added e (goesToDLQ r e name)
  | .won e _, .error _ => .gap e
  | _, _ => .failed

/-- A deletion got its reply, whatever it is. -/
def onDel : Stage → Stage
  | .added e toDLQ => .cleared e toDLQ
  | .won e _ => .dropped e
  | _ => .failed

end Stage

/-- What a recoverer has yet to do. -/
structure Scope where
  /-- It scans, so it may ask for the pending entries. -/
  scan : Bool
  /-- The IDs it has yet to recover. -/
  todo : List String

/-- An ID less to recover. -/
def Scope.erase (scope : Scope) (id : String) : Scope :=
  { scope with todo := scope.todo.erase id }

/-- What a goroutine is doing. -/
inductive Session
  | /-- A recoverer. -/
    recover (scope : Scope) (stage : Stage)
  | /-- `DoneStream` before it popped a record. -/
    finishing
  | /-- `DoneStream` popped a record. -/
    popped (info : StreamLocksInfo)
  | /-- `DoneStream` acknowledged the entry of the record. -/
    acked (info : StreamLocksInfo)
  | /-- `DoneStream` deleted the entry of the record. -/
    deleted (info : StreamLocksInfo)
  | /-- `DoneStream` is over. -/
    over
  | /-- The reader has these messages left to process. -/
    batch (todo : List XMessage)
  | /-- The reader locked the first of its messages. -/
    locked (message : XMessage) (name : String) (todo : List XMessage)
  | /-- The reader recorded it in `streamLocks`. -/
    recorded (info : StreamLocksInfo) (todo : List XMessage)
  | /-- The reader tried to announce it. -/
    announced (info : StreamLocksInfo) (todo : List XMessage)
  | /-- The reader gives up. -/
    stopped
  | /-- An extender at the head of its loop. -/
    extender (info : StreamLocksInfo)
  | /-- An extender that just found its stream recorded. -/
    extending (info : StreamLocksInfo)
  | /-- An extender whose extension failed. -/
    disowned (info : StreamLocksInfo)
  | /-- An extender on its way out. -/
    leaving (info : StreamLocksInfo)
  | /-- An extender on its way out that just found its stream recorded. -/
    clearing (info : StreamLocksInfo)
  | /-- A goroutine of the broker. -/
    broker

namespace Session

variable (J : Json) (r : Client)

/-- A scan between two entries. -/
def Scanning : Session → Prop
  | .recover scope stage => scope.scan = true ∧ stage.Resting
  | _ => False

/-- The notifications that may be sent. -/
def OkSend (m : RecoverableRedisNotification) : Session → Prop
  | .recorded i _ => m = make .streamAdded i.lbsInfo i.additionalInfo
  | .disowned i => m = make .streamDisowned i.lbsInfo i.additionalInfo
  | .batch _ | .stopped => m.type = .streamTerminated
  | .broker => True
  | _ => False

/-- The operations on the broker that are allowed. -/
def OkBroker : Broker.Op → Session → Prop
  | .load, q => ∀ scope stage, q ≠ .recover scope stage
  | .select _ m, q => q.OkSend m
  | _, q => q = .broker

/-- The mutex that the owner of an entry locks. -/
def mutexOf (message : XMessage) (name : String) : RedsyncMutex :=
  ⟨(LBSInfo.mk name message.id).formMutexKey, r.consumerID⟩

/-- No acknowledged entry waits for the report that its addition failed. -/
def NoGap (q : Session) : Prop := ∀ scope e, q ≠ .recover scope (.gap e)

/-- What is allowed in which session. -/
def Ok (q : Session) : Op → Prop
  | .xrange stream start stop =>
    stream = r.lbsName ∧ start = stop ∧
      ∃ scope stage, q = .recover scope stage ∧ stage.Resting ∧ start ∈ scope.todo
  | .xack stream group id =>
    stream = r.lbsName ∧ group = r.lbsGroupName ∧
      ((∃ scope stage, q = .recover scope stage ∧ stage.OkAck J id) ∨
        ∃ i, q = .popped i ∧ id = i.lbsInfo.idInLBS)
  | .xadd stream maxLen values =>
    ∃ scope stage, q = .recover scope stage ∧ stage.OkAdd r stream maxLen values
  | .xdel stream id =>
    stream = r.lbsName ∧
      ((∃ scope stage, q = .recover scope stage ∧ stage.OkDel r id) ∨
        ∃ i, q = .acked i ∧ id = i.lbsInfo.idInLBS)
  | .existsKey key =>
    ∃ scope e name, q = .recover scope (.found e) ∧ e.dataStreamName J = .ok name ∧
      key = (LBSInfo.mk name e.id).formMutexKey
  | .xpending stream group _ _ _ _ => stream = r.lbsName ∧ group = r.lbsGroupName ∧ q.Scanning
  | .xreadGroup group consumer stream =>
    group = r.lbsGroupName ∧ consumer = r.consumerID ∧ stream = r.lbsName ∧ q = .batch []
  | .lock m =>
    ∃ message name todo, q = .batch (message :: todo) ∧
      (LBSEntry.mk message.id message.values).dataStreamName J = .ok name ∧
      m = mutexOf r message name
  | .extend m => ∃ i, q = .extending i ∧ m = i.redsyncMutex
  | .unlock m => ∃ i, q = .deleted i ∧ m = i.redsyncMutex
  | .putStreamLocks name info =>
    ∃ message todo, q = .locked message name todo ∧ info.lbsInfo = ⟨name, message.id⟩ ∧
      info.redsyncMutex = mutexOf r message name
  | .popStreamLocksInfo name =>
    q = .finishing ∨ ∃ i, q = .clearing i ∧ name = i.lbsInfo.dataStreamName
  | .isStreamProcessingDone name =>
    ∃ i, (q = .extender i ∨ q = .disowned i ∨ q = .leaving i) ∧ name = i.lbsInfo.dataStreamName
  | .broker o => q.OkBroker o
  | .goStartExtendingKey m lbsInfo info =>
    ∃ todo, q = .recorded ⟨lbsInfo, m, info⟩ todo ∨ q = .announced ⟨lbsInfo, m, info⟩ todo
  | .record (.ackAddGap _) => ∃ scope e, q = .recover scope (.gap e)
  | .isContextDone | .sleep _ | .waitOrDone _ | .record _ => q.NoGap

/-! ## What is learnt -/

/-- A recoverer goes on to another stage. -/
def onStage (f : Stage → Stage) : Session → Session
  | .recover scope stage => .recover scope (f stage)
  | q => q

/-- A recoverer read an entry. -/
def onRange (id : String) : Session → Except Err (List XMessage) → Session
  | .recover scope _, reply => .recover (scope.erase id) (.onRange id reply)
  | q, _ => q

/-- A recoverer was given the pending entries. -/
def onPending : Session → Except Err (List String) → Session
  | .recover scope stage, .ok ids => .recover { scope with todo := ids } stage
  | q, _ => q

/-- An acknowledgement got its reply. -/
def onAck : Session → Except Err Int → Session
  | .popped i, .ok _ => .acked i
  | .popped _, .error _ => .over
  | q, reply => q.onStage (·.onAck reply)

/-- A deletion got its reply. -/
def onDel : Session → Except Err Int → Session
  | .acked i, .ok _ => .deleted i
  | .acked _, .error _ => .over
  | q, _ => q.onStage Stage.onDel

/-- The reader was given messages. -/
def onReadGroup : Except Err (List (String × List XMessage)) → Session
  | .error _ => .batch []
  | .ok streams => .batch (streams.flatMap Prod.snd)

/-- The reader tried a lock. -/
def onLock : Session → Option Err → Session
  | .batch (message :: todo), none =>
    match (LBSEntry.mk message.id message.values).dataStreamName J with
    | .ok name => .locked message name todo
    | .error _ => .stopped
  | _, _ => .stopped

/-- The reader recorded what it locked. -/
def onPut (info : StreamLocksInfo) : Session → Session
  | .locked _ _ todo => .recorded info todo
  | q => q

/-- A select on the broker took a case. -/
def onSelect : Session → Session
  | .recorded i todo => .announced i todo
  | q => q

/-- The reader started an extender. -/
def onGo : Session → Session
  | .recorded _ todo | .announced _ todo => .batch todo
  | q => q

/-- An extender tried to extend. -/
def onExtend : Session → Bool × Option Err → Session
  | .extending i, (true, none) => .extender i
  | .extending i, _ => .disowned i
  | q, _ => q

/-- A record was popped. -/
def onPop : Session → Option StreamLocksInfo → Session
  | .finishing, some i => .popped i
  | .finishing, none => .over
  | .clearing i, _ => .leaving i
  | q, _ => q

/-- An extender looked for its record. -/
def onProcessingDone : Session → Bool → Session
  | .extender i, true => .leaving i
  | .extender i, false => .extending i
  | .disowned i, true => .leaving i
  | .disowned i, false => .clearing i
  | .leaving i, true => .leaving i
  | .leaving i, false => .clearing i
  | q, _ => q

/-- An extender asked for its context. -/
def onContextDone : Session → Bool → Session
  | .extender i, true => .leaving i
  | q, _ => q

/-- A failed addition was reported. -/
def onGapReported : Session → Session := onStage fun _ ↦ .failed

/-- The session after an operation. -/
def next (q : Session) : (o : Op) → o.Reply → Session
  | .xrange _ start _, reply => q.onRange start reply
  | .existsKey _, reply => q.onStage (·.onExists J reply)
  | .xack _ _ _, reply => q.onAck reply
  | .xadd _ _ _, reply => q.onStage (·.onAdd r reply)
  | .xdel _ _, reply => q.onDel reply
  | .xpending _ _ _ _ _ _, reply => q.onPending reply
  | .xreadGroup _ _ _, reply => onReadGroup reply
  | .lock _, reply => q.onLock J reply
  | .extend _, reply => q.onExtend reply
  | .unlock _, _ => .over
  | .putStreamLocks _ info, _ => q.onPut info
  | .popStreamLocksInfo _, reply => q.onPop reply
  | .isStreamProcessingDone _, reply => q.onProcessingDone reply
  | .isContextDone, reply => q.onContextDone reply
  | .broker (.select _ _), _ => q.onSelect
  | .goStartExtendingKey _ _ _, _ => q.onGo
  | .record (.ackAddGap _), _ => q.onGapReported
  | .broker _, _ | .sleep _, _ | .waitOrDone _, _ | .record _, _ => q

/-! ## Roles -/

/-- The kinds of goroutines. -/
inductive Role
  | recoverer
  | finisher
  | reader
  | extender
  | broker
deriving DecidableEq

/-- The kind of goroutine a session belongs to. -/
def role : Session → Role
  | .recover _ _ => .recoverer
  | .finishing | .popped _ | .acked _ | .deleted _ | .over => .finisher
  | .batch _ | .locked _ _ _ | .recorded _ _ | .announced _ _ | .stopped => .reader
  | .extender _ | .extending _ | .disowned _ | .leaving _ | .clearing _ => .extender
  | .broker => .broker

/-- The session of a goroutine that was just started. -/
def start : Call → Session
  | .claim lbsInfo => .recover ⟨false, [lbsInfo.idInLBS]⟩ .idle
  | .reconcile _ => .recover ⟨true, []⟩ .idle
  | .doneStream _ => .finishing
  | .readLBSStream _ _ => .batch []
  | .startExtendingKey m lbsInfo info => .extender ⟨lbsInfo, m, info⟩
  | .broker _ => .broker

end Session

/-- The kind of goroutine a call runs in. -/
def Call.role : Call → Session.Role
  | .claim _ | .reconcile _ => .recoverer
  | .doneStream _ => .finisher
  | .readLBSStream _ _ => .reader
  | .startExtendingKey _ _ _ => .extender
  | .broker _ => .broker

/-- The calls that a client makes itself or its user may make.  Extenders are started by
the reader only, notifications are sent by the client only. -/
def Call.Public : Call → Prop
  | .claim _ | .doneStream _ | .reconcile _ | .readLBSStream _ _ => True
  | .broker .run | .broker .close => True
  | .startExtendingKey _ _ _ | .broker _ => False

instance Call.instDecidablePublic : DecidablePred Call.Public
  | .claim _ | .doneStream _ | .reconcile _ | .readLBSStream _ _ => .isTrue trivial
  | .broker .run | .broker .close => .isTrue trivial
  | .startExtendingKey _ _ _ | .broker (.send _ _) | .broker .drain => .isFalse id

namespace Session

/-- The session is one of a goroutine that was started as `f`. -/
def Plays (f : Call) (q : Session) : Prop := q.role = f.role

theorem plays_start (f : Call) : (start f).Plays f := by cases f <;> rfl

/-- A goroutine stays what it is. -/
theorem role_next {J : Json} {r : Client} {q : Session} {o : Op} (h : q.Ok J r o)
    (reply : o.Reply) : (q.next J r o reply).role = q.role := by
  have hstage : ∀ f, (q.onStage f).role = q.role := fun f ↦ by cases q <;> rfl
  cases o with
  | xreadGroup group consumer stream =>
    obtain ⟨-, -, -, rfl⟩ := h
    rcases reply with _ | _ <;> rfl
  | lock m =>
    obtain ⟨message, name, todo, rfl, hn, -⟩ := h
    rcases reply with _ | _ <;> simp [next, onLock, hn, role]
  | unlock m =>
    obtain ⟨i, rfl, -⟩ := h
    rfl
  | xack stream group id => rcases reply with _ | _ <;> cases q <;> rfl
  | xdel stream id => rcases reply with _ | _ <;> cases q <;> rfl
  | xpending stream group idle start stop count => rcases reply with _ | _ <;> cases q <;> rfl
  | extend m => rcases reply with ⟨_ | _, _ | _⟩ <;> cases q <;> rfl
  | putStreamLocks name info => cases q <;> rfl
  | popStreamLocksInfo name => rcases reply with _ | _ <;> cases q <;> rfl
  | isStreamProcessingDone name => rcases reply with _ | _ <;> cases q <;> rfl
  | isContextDone => rcases reply with _ | _ <;> cases q <;> rfl
  | goStartExtendingKey m lbsInfo info => cases q <;> rfl
  | broker o =>
    cases o with
    | select ctx m => cases q <;> rfl
    | _ => rfl
  | record m =>
    cases m with
    | ackAddGap stream => exact hstage _
    | _ => rfl
  | xrange stream start stop => cases q <;> rfl
  | existsKey key => exact hstage _
  | xadd stream maxLen values => exact hstage _
  | sleep d => rfl
  | waitOrDone d => rfl

theorem exists_recover_of_role {q : Session} (h : q.role = .recoverer) :
    ∃ scope stage, q = .recover scope stage := by
  cases q with
  | recover scope stage => exact ⟨scope, stage, rfl⟩
  | _ => cases h

/-- **What a recoverer does**: one of its five commands or the report of a gap; else it
writes nothing and its session stays, or it is a scan and gets new IDs to recover. -/
theorem recover_cases {J : Json} {r : Client} {scope : Scope} {stage : Stage} {o : Op}
    (hok : (recover scope stage).Ok J r o) (reply : o.Reply) :
    (¬ o.Writes ∧ (recover scope stage).next J r o reply = .recover scope stage) ∨
      (scope.scan = true ∧ (∃ s g d a b n, o = .xpending s g d a b n) ∧
        ∃ scope', (recover scope stage).next J r o reply = .recover scope' stage) ∨
      (∃ s i, o = .xrange s i i) ∨ (∃ key, o = .existsKey key) ∨ (∃ s g i, o = .xack s g i) ∨
        (∃ s n v, o = .xadd s n v) ∨ (∃ s i, o = .xdel s i) ∨ ∃ s, o = .record (.ackAddGap s) := by
  cases o with
  | xrange s i j =>
    obtain ⟨-, rfl, -⟩ := hok
    exact .inr (.inr (.inl ⟨s, i, rfl⟩))
  | existsKey key => exact .inr (.inr (.inr (.inl ⟨key, rfl⟩)))
  | xack s g i => exact .inr (.inr (.inr (.inr (.inl ⟨s, g, i, rfl⟩))))
  | xadd s n v => exact .inr (.inr (.inr (.inr (.inr (.inl ⟨s, n, v, rfl⟩)))))
  | xdel s i => exact .inr (.inr (.inr (.inr (.inr (.inr (.inl ⟨s, i, rfl⟩))))))
  | record m =>
    cases m with
    | ackAddGap s => exact .inr (.inr (.inr (.inr (.inr (.inr (.inr ⟨s, rfl⟩))))))
    | _ => exact .inl ⟨not_false, rfl⟩
  | xpending stream group idle start stop count =>
    obtain ⟨-, -, hscan, -⟩ := hok
    rcases reply with _ | _ <;> exact .inr (.inl ⟨hscan, ⟨_, _, _, _, _, _, rfl⟩, _, rfl⟩)
  | xreadGroup group consumer stream => obtain ⟨-, -, -, h⟩ := hok; cases h
  | lock m => obtain ⟨_, _, _, h, -⟩ := hok; cases h
  | unlock m => obtain ⟨_, h, -⟩ := hok; cases h
  | extend m => obtain ⟨_, h, -⟩ := hok; cases h
  | putStreamLocks name info => obtain ⟨_, _, h, -⟩ := hok; cases h
  | popStreamLocksInfo name => rcases hok with h | ⟨_, h, -⟩ <;> cases h
  | isStreamProcessingDone name => obtain ⟨_, h | h | h, -⟩ := hok <;> cases h
  | goStartExtendingKey m lbsInfo info => obtain ⟨_, h | h⟩ := hok <;> cases h
  | isContextDone => rcases reply with _ | _ <;> exact .inl ⟨not_false, rfl⟩
  | broker o =>
    cases o with
    | load => exact absurd rfl (hok scope stage)
    | select ctx m => exact hok.elim
    | _ => cases hok
  | sleep d => exact .inl ⟨not_false, rfl⟩
  | waitOrDone d => exact .inl ⟨not_false, rfl⟩

/-- The same, told from what a recoverer goes on to. -/
theorem next_recover {J : Json} {r : Client} {q : Session} {o : Op} {reply : o.Reply}
    {scope' : Scope} {stage' : Stage} (hok : q.Ok J r o)
    (hn : q.next J r o reply = .recover scope' stage') :
    ∃ scope stage, q = .recover scope stage ∧
      (stage' = stage ∨ (∃ s i, o = .xrange s i i) ∨ (∃ key, o = .existsKey key) ∨
        (∃ s g i, o = .xack s g i) ∨ (∃ s n v, o = .xadd s n v) ∨ (∃ s i, o = .xdel s i) ∨
          ∃ s, o = .record (.ackAddGap s)) := by
  have hrole : q.role = .recoverer := by rw [← role_next hok reply, hn]; rfl
  obtain ⟨scope, stage, rfl⟩ := exists_recover_of_role hrole
  refine ⟨scope, stage, rfl, ?_⟩
  rcases recover_cases hok reply with ⟨-, heq⟩ | ⟨-, -, scope'', heq⟩ | ho
  · exact .inl (recover.inj (hn.symm.trans heq)).2
  · exact .inl (recover.inj (hn.symm.trans heq)).2
  · exact .inr ho

/-- **What `DoneStream` does**: its four steps one after the other, and nothing else that
writes. -/
theorem finisher_cases {J : Json} {r : Client} {q : Session} {o : Op} (hrole : q.role = .finisher)
    (hok : q.Ok J r o) (reply : o.Reply) :
    (¬ o.Writes ∧ q.next J r o reply = q) ∨
      (q = .finishing ∧ ∃ name, o = .popStreamLocksInfo name) ∨
      (∃ info s g, q = .popped info ∧ o = .xack s g info.lbsInfo.idInLBS) ∨
      (∃ info s, q = .acked info ∧ o = .xdel s info.lbsInfo.idInLBS) ∨
      ∃ info, q = .deleted info ∧ o = .unlock info.redsyncMutex := by
  cases o with
  | popStreamLocksInfo name =>
    rcases hok with rfl | ⟨info, rfl, -⟩
    · exact .inr (.inl ⟨rfl, name, rfl⟩)
    · cases hrole
  | xack s g id =>
    obtain ⟨-, -, ⟨scope, stage, rfl, -⟩ | ⟨info, rfl, rfl⟩⟩ := hok
    · cases hrole
    · exact .inr (.inr (.inl ⟨info, s, g, rfl, rfl⟩))
  | xdel s id =>
    obtain ⟨-, ⟨scope, stage, rfl, -⟩ | ⟨info, rfl, rfl⟩⟩ := hok
    · cases hrole
    · exact .inr (.inr (.inr (.inl ⟨info, s, rfl, rfl⟩)))
  | unlock m =>
    obtain ⟨info, rfl, rfl⟩ := hok
    exact .inr (.inr (.inr (.inr ⟨info, rfl, rfl⟩)))
  | xrange s a b => obtain ⟨-, -, _, _, rfl, -⟩ := hok; cases hrole
  | existsKey key => obtain ⟨_, _, _, rfl, -⟩ := hok; cases hrole
  | xadd s n v => obtain ⟨_, _, rfl, -⟩ := hok; cases hrole
  | xpending s g d a b n =>
    obtain ⟨-, -, hscan⟩ := hok
    cases q with
    | recover scope stage => cases hrole
    | _ => exact hscan.elim
  | xreadGroup g n s => obtain ⟨-, -, -, rfl⟩ := hok; cases hrole
  | lock m => obtain ⟨_, _, _, rfl, -⟩ := hok; cases hrole
  | extend m => obtain ⟨_, rfl, -⟩ := hok; cases hrole
  | putStreamLocks name info => obtain ⟨_, _, rfl, -⟩ := hok; cases hrole
  | isStreamProcessingDone name => obtain ⟨_, rfl | rfl | rfl, -⟩ := hok <;> cases hrole
  | goStartExtendingKey m l info => obtain ⟨_, rfl | rfl⟩ := hok <;> cases hrole
  | record m =>
    cases m with
    | ackAddGap s => obtain ⟨_, _, rfl⟩ := hok; cases hrole
    | _ => exact .inl ⟨not_false, rfl⟩
  | isContextDone =>
    refine .inl ⟨not_false, ?_⟩
    cases q with
    | extender info => cases hrole
    | _ => rfl
  | broker o =>
    refine .inl ⟨not_false, ?_⟩
    cases o with
    | select ctx m =>
      cases q with
      | recorded info todo => cases hrole
      | _ => rfl
    | _ => rfl
  | sleep d => exact .inl ⟨not_false, rfl⟩
  | waitOrDone d => exact .inl ⟨not_false, rfl⟩

/-- **What the reader does**: it asks for messages, and locks, records, announces and starts
an extender for each of them in turn.  Anything else leaves its session alone. -/
theorem reader_cases {J : Json} {r : Client} {q : Session} {o : Op} (hrole : q.role = .reader)
    (hok : q.Ok J r o) (reply : o.Reply) :
    (¬ o.Writes ∧ (∀ name info, o ≠ .putStreamLocks name info) ∧ q.next J r o reply = q) ∨
      (q = .batch [] ∧ ∃ g n s, o = .xreadGroup g n s) ∨
      (∃ message name todo, q = .batch (message :: todo) ∧
        (LBSEntry.mk message.id message.values).dataStreamName J = .ok name ∧
          o = .lock (mutexOf r message name)) ∨
      (∃ message name todo info, q = .locked message name todo ∧
        info.lbsInfo = ⟨name, message.id⟩ ∧ info.redsyncMutex = mutexOf r message name ∧
          o = .putStreamLocks name info) ∨
      (∃ info todo ctx, q = .recorded info todo ∧
        o = .broker (.select ctx (make .streamAdded info.lbsInfo info.additionalInfo))) ∨
      ∃ info todo, (q = .recorded info todo ∨ q = .announced info todo) ∧
        o = .goStartExtendingKey info.redsyncMutex info.lbsInfo info.additionalInfo := by
  cases o with
  | xreadGroup g n s =>
    obtain ⟨-, -, -, rfl⟩ := hok
    exact .inr (.inl ⟨rfl, g, n, s, rfl⟩)
  | lock m =>
    obtain ⟨message, name, todo, rfl, hname, rfl⟩ := hok
    exact .inr (.inr (.inl ⟨message, name, todo, rfl, hname, rfl⟩))
  | putStreamLocks name info =>
    obtain ⟨message, todo, rfl, hinfo, hmutex⟩ := hok
    exact .inr (.inr (.inr (.inl ⟨message, name, todo, info, rfl, hinfo, hmutex, rfl⟩)))
  | goStartExtendingKey m l info =>
    obtain ⟨todo, hq⟩ := hok
    exact .inr (.inr (.inr (.inr (.inr ⟨⟨l, m, info⟩, todo, hq, rfl⟩))))
  | broker o =>
    cases o with
    | select ctx m =>
      cases q with
      | recorded info todo =>
        obtain rfl : m = make .streamAdded info.lbsInfo info.additionalInfo := hok
        exact .inr (.inr (.inr (.inr (.inl ⟨info, todo, ctx, rfl, rfl⟩))))
      | _ => exact .inl ⟨not_false, nofun, rfl⟩
    | _ => exact .inl ⟨not_false, nofun, rfl⟩
  | record m =>
    cases m with
    | ackAddGap s => obtain ⟨_, _, rfl⟩ := hok; cases hrole
    | _ => exact .inl ⟨not_false, nofun, rfl⟩
  | isContextDone =>
    refine .inl ⟨not_false, nofun, ?_⟩
    cases q with
    | extender info => cases hrole
    | _ => rfl
  | sleep d => exact .inl ⟨not_false, nofun, rfl⟩
  | waitOrDone d => exact .inl ⟨not_false, nofun, rfl⟩
  | xrange s a b => obtain ⟨-, -, _, _, rfl, -⟩ := hok; cases hrole
  | existsKey key => obtain ⟨_, _, _, rfl, -⟩ := hok; cases hrole
  | xack s g id =>
    obtain ⟨-, -, ⟨_, _, rfl, -⟩ | ⟨_, rfl, -⟩⟩ := hok <;> cases hrole
  | xadd s n v => obtain ⟨_, _, rfl, -⟩ := hok; cases hrole
  | xdel s id => obtain ⟨-, ⟨_, _, rfl, -⟩ | ⟨_, rfl, -⟩⟩ := hok <;> cases hrole
  | xpending s g d a b n =>
    obtain ⟨-, -, hscan⟩ := hok
    cases q with
    | recover scope stage => cases hrole
    | _ => exact hscan.elim
  | extend m => obtain ⟨_, rfl, -⟩ := hok; cases hrole
  | unlock m => obtain ⟨_, rfl, -⟩ := hok; cases hrole
  | popStreamLocksInfo name => rcases hok with rfl | ⟨_, rfl, -⟩ <;> cases hrole
  | isStreamProcessingDone name => obtain ⟨_, rfl | rfl | rfl, -⟩ := hok <;> cases hrole

/-- **What an extender does**: it asks for its context, looks for its record, extends and
pops.  Anything else leaves its session alone. -/
theorem extender_cases {J : Json} {r : Client} {q : Session} {o : Op} (hrole : q.role = .extender)
    (hok : q.Ok J r o) (reply : o.Reply) :
    (¬ o.Writes ∧ (∀ name, o ≠ .isStreamProcessingDone name) ∧ q.next J r o reply = q) ∨
      (∃ info, q = .extender info ∧ o = .isContextDone) ∨
      (∃ info, (q = .extender info ∨ q = .disowned info ∨ q = .leaving info) ∧
        o = .isStreamProcessingDone info.lbsInfo.dataStreamName) ∨
      (∃ info, q = .extending info ∧ o = .extend info.redsyncMutex) ∨
      ∃ info, q = .clearing info ∧ o = .popStreamLocksInfo info.lbsInfo.dataStreamName := by
  cases o with
  | isContextDone =>
    cases q with
    | extender info => exact .inr (.inl ⟨info, rfl, rfl⟩)
    | _ => exact .inl ⟨not_false, by simp, rfl⟩
  | isStreamProcessingDone name =>
    obtain ⟨info, hq, rfl⟩ := hok
    exact .inr (.inr (.inl ⟨info, hq, rfl⟩))
  | extend m =>
    obtain ⟨info, rfl, rfl⟩ := hok
    exact .inr (.inr (.inr (.inl ⟨info, rfl, rfl⟩)))
  | popStreamLocksInfo name =>
    rcases hok with rfl | ⟨info, rfl, rfl⟩
    · cases hrole
    · exact .inr (.inr (.inr (.inr ⟨info, rfl, rfl⟩)))
  | broker o =>
    refine .inl ⟨not_false, by simp, ?_⟩
    cases o with
    | select ctx m =>
      cases q with
      | recorded info todo => cases hrole
      | _ => rfl
    | _ => rfl
  | record m =>
    cases m with
    | ackAddGap s => obtain ⟨_, _, rfl⟩ := hok; cases hrole
    | _ => exact .inl ⟨not_false, by simp, rfl⟩
  | sleep d => exact .inl ⟨not_false, by simp, rfl⟩
  | waitOrDone d => exact .inl ⟨not_false, by simp, rfl⟩
  | xrange s a b => obtain ⟨-, -, _, _, rfl, -⟩ := hok; cases hrole
  | existsKey key => obtain ⟨_, _, _, rfl, -⟩ := hok; cases hrole
  | xack s g id => obtain ⟨-, -, ⟨_, _, rfl, -⟩ | ⟨_, rfl, -⟩⟩ := hok <;> cases hrole
  | xadd s n v => obtain ⟨_, _, rfl, -⟩ := hok; cases hrole
  | xdel s id => obtain ⟨-, ⟨_, _, rfl, -⟩ | ⟨_, rfl, -⟩⟩ := hok <;> cases hrole
  | xpending s g d a b n =>
    obtain ⟨-, -, hscan⟩ := hok
    cases q with
    | recover scope stage => cases hrole
    | _ => exact hscan.elim
  | xreadGroup g n s => obtain ⟨-, -, -, rfl⟩ := hok; cases hrole
  | lock m => obtain ⟨_, _, _, rfl, -⟩ := hok; cases hrole
  | unlock m => obtain ⟨_, rfl, -⟩ := hok; cases hrole
  | putStreamLocks name info => obtain ⟨_, _, rfl, -⟩ := hok; cases hrole
  | goStartExtendingKey m l info => obtain ⟨_, rfl | rfl⟩ := hok <;> cases hrole

end Session

end RedisStreamClient.Impl
