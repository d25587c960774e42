import RedisStreamClient.Impl.Contract
import RedisStreamClient.Notifs.Delivery

/-!
# What a goroutine announces

The notifications about an entry of the LBS come from two goroutines: the reader announces it
with `StreamAdded` and starts its extender, and the extender announces with `StreamDisowned` that
the lock is lost.  Both go through `Send`, which asks whether the broker is closed before it
offers the notification, and the extender looks at its context before it extends the lock.

`Herald` is how far a goroutine is with that, finer than its session: the reader starts an
extender only after it was told that the broker is closed or has offered the notification, and
an extender offers its own only after it has seen its context alive and the broker open.
-/

namespace RedisStreamClient.Impl

open RedisStreamClient.Lib RedisStreamClient.Errs RedisStreamClient.Notifs
open RedisStreamClient.Redis

/-- How far a goroutine is with its announcements. -/
inductive Herald
  | /-- It has nothing to announce. -/
    aside
  | /-- It sends one notification. -/
    relays (m : RecoverableRedisNotification)
  | /-- It moves notifications through the broker, and holds these. -/
    runs (hand : List RecoverableRedisNotification)
  | /-- It closes the broker, and may have set the flag. -/
    closes (swapped : Bool)
  | /-- It reads the LBS, with these entries yet to be announced. -/
    reads (ids : List String)
  | /-- As before, and it was told whether the broker is closed. -/
    asks (ids : List String) (closed : Bool)
  | /-- It has offered the announcement of an entry, with these yet to be announced. -/
    told (l : LBSInfo) (ids : List String)
  | /-- It extends the lock of an entry, and has seen its context alive, and the broker open. -/
    tends (l : LBSInfo) (live opened : Bool)

/-- The operations of the loops of `run`. -/
def Herald.isLoop : Broker.Op → Bool
  | .runSelect | .drainSelect | .output _ | .closeInput | .wgDone => true
  | _ => false

/-- The operations of `Close`. -/
def Herald.isClose : Broker.Op → Bool
  | .compareAndSwap | .closeQuit | .wgWait | .closeOutput => true
  | _ => false

namespace Herald

variable (r : Client)

/-- What a goroutine may do to the broker. -/
def OkBroker : Herald → Broker.Op → Prop
  | .runs hand, o => Herald.isLoop o = true ∧ Broker.HandOk hand o
  | .closes swapped, o => Herald.isClose o = true ∧ (o = .closeQuit → swapped = true)
  | .aside, o | .reads _, o => o = .load
  | .relays m, o => o = .load ∨ ∃ ctx, o = .select ctx m
  | .asks ids closed, o => closed = false ∧ ∃ ctx m, o = .select ctx m ∧
    (m.type = .streamTerminated ∨
      (m.type = .streamAdded ∧ ids.head? = some m.payload.idInLBS))
  | .told _ _, _ => False
  | .tends l live opened, o => live = true ∧
    (o = .load ∨ (opened = true ∧ ∃ ctx m, o = .select ctx m ∧ m.type = .streamDisowned ∧
      m.payload = l))

/-- Whose extender a goroutine may start. -/
def OkGo (l : LBSInfo) : Herald → Prop
  | .asks ids closed => closed = true ∧ ids.head? = some l.idInLBS
  | .told l' _ => l' = l
  | _ => False

/-- What is allowed. -/
def Ok (h : Herald) : Op → Prop
  | .broker o => h.OkBroker o
  | .xreadGroup group consumer stream =>
    h = .reads [] ∧ group = r.lbsGroupName ∧ consumer = r.consumerID ∧ stream = r.lbsName
  | .goStartExtendingKey _ l _ => h.OkGo l
  | _ => True

/-- After an operation on the broker. -/
def onBroker : Herald → (o : Broker.Op) → o.Reply → Herald
  | .runs hand, o, x => .runs (Broker.handNext hand o x)
  | .closes _, .compareAndSwap, _ => .closes true
  | .reads ids, .load, closed => .asks ids closed
  | .asks ids _, .select _ m, _ =>
    if m.type = .streamAdded then .told m.payload ids.tail else .aside
  | .tends l live _, .load, closed => .tends l live (!(show Bool from closed))
  | .tends _ _ _, .select _ _, _ => .aside
  | h, _, _ => h

/-- After an extender was started. -/
def onGo : Herald → Herald
  | .asks ids _ => .reads ids.tail
  | .told _ ids => .reads ids
  | h => h

/-- After a look at the context. -/
def onContextDone (done : Bool) : Herald → Herald
  | .tends l live _ => .tends l (live || !done) false
  | h => h

/-- What a read hands to the reader. -/
def onReadGroup (h : Herald) : Except Err (List (String × List XMessage)) → Herald
  | .error _ => h
  | .ok streams => .reads ((streams.flatMap Prod.snd).map XMessage.id)

/-- How far a goroutine is after an operation. -/
def next (h : Herald) : (o : Op) → o.Reply → Herald
  | .broker o, x => h.onBroker o x
  | .xreadGroup _ _ _, x => h.onReadGroup x
  | .goStartExtendingKey _ _ _, _ => h.onGo
  | .isContextDone, done => h.onContextDone done
  | _, _ => h

/-- A goroutine that was just started. -/
def start : Call → Herald
  | .claim _ | .doneStream _ | .reconcile _ => .aside
  | .readLBSStream _ _ => .reads []
  | .startExtendingKey _ l _ => .tends l false false
  | .broker .run | .broker .drain => .runs []
  | .broker .close => .closes false
  | .broker (.send _ m) => .relays m

/-- When a goroutine may return, or go round its loop. -/
def Exit (h : Herald) : Res ⊕ Call → Prop
  | .inl _ => True
  | .inr (.startExtendingKey _ l _) => ∃ live, h = .tends l live false
  | .inr f => h = .start f

end Herald

/-- The monitor of announcements. -/
@[reducible] def heraldMonitor (cfg : Nat → Client) : Monitor sig Nat where
  State := Herald
  Ok c h o := h.Ok (cfg c) o
  next _ h o x := h.next o x

/-- A program of client `c` announces as it should, and ends as far as `Q` says. -/
def Heralds (cfg : Nat → Client) (c : Nat) {A : Type} (Q : Herald → A → Prop) (p : Prog sig A)
    (h : Herald) : Prop :=
  p.Obeys (heraldMonitor cfg) c Q h

section

variable {J : Json} {cfg : Nat → Client} {c : Nat} {A B : Type} {Q : Herald → A → Prop} {h : Herald}

/-! ## Goroutines with nothing to announce -/

/-- The operations of goroutines that announce nothing. -/
def Op.isQuiet : Op → Bool
  | .xreadGroup _ _ _ | .goStartExtendingKey _ _ _ => false
  | .broker .load => true
  | .broker _ => false
  | _ => true

theorem Session.isQuiet_of_ok {q : Session} {o : Op}
    (hrole : q.role = .recoverer ∨ q.role = .finisher) (hok : q.Ok J (cfg c) o) :
    o.isQuiet = true := by
  cases o with
  | xreadGroup g n s =>
    obtain ⟨-, -, -, rfl⟩ := hok
    rcases hrole with hrole | hrole <;> cases hrole
  | goStartExtendingKey m l i =>
    obtain ⟨todo, rfl | rfl⟩ := hok <;> rcases hrole with hrole | hrole <;> cases hrole
  | broker b =>
    cases b with
    | load => rfl
    | select ctx m =>
      replace hok : q.OkSend m := hok
      cases q <;> first | exact hok.elim | (rcases hrole with hrole | hrole <;> cases hrole)
    | _ =>
      obtain rfl : q = .broker := hok
      rcases hrole with hrole | hrole <;> cases hrole
  | _ => rfl

/-- Recoverers and `DoneStream` announce nothing. -/
theorem Keeps.quiet {R : Session → A → Prop} {p : Prog sig A} {q : Session}
    (hp : Keeps J cfg c R p q) (hrole : q.role = .recoverer ∨ q.role = .finisher) :
    Heralds cfg c (fun h _ ↦ h = .aside) p .aside := by
  have honly : p.Only fun o : Op ↦ o.isQuiet = true := by
    refine Prog.Obeys.only (I := fun q : Session ↦ q.role = .recoverer ∨ q.role = .finisher)
      ?_ hp hrole
    intro q o hrole hok
    refine ⟨Session.isQuiet_of_ok hrole hok, fun x ↦ ?_⟩
    have hsame : (q.next J (cfg c) o x).role = q.role := Session.role_next hok x
    exact hrole.imp hsame.trans hsame.trans
  refine honly.obeys ?_
  intro o ho
  cases o with
  | broker b =>
    cases b with
    | load => exact ⟨rfl, fun _ ↦ rfl⟩
    | _ => cases ho
  | xreadGroup g n s => cases ho
  | goStartExtendingKey m l i => cases ho
  | _ => exact ⟨trivial, fun _ ↦ rfl⟩

/-! ## The reader and the extender -/

theorem Heralds.bind {Q' : Herald → B → Prop} {p : Prog sig B} {f : B → Prog sig A}
    (hp : Heralds cfg c Q' p h) (hf : ∀ h' b, Q' h' b → Heralds cfg c Q (f b) h') :
    Heralds cfg c Q (p >>= f) h :=
  Prog.Obeys.bind hp hf

/-- Sending a notification: the broker is closed, or the notification is offered. -/
theorem Heralds.sendNotif {m : RecoverableRedisNotification} {f : Bool → Prog sig A}
    (hload : h.OkBroker .load) (hclosed : Heralds cfg c Q (f false) (h.onBroker .load true))
    (hok : (h.onBroker .load false).OkBroker (.select 0 m))
    (hoffered : ∀ x ok, Heralds cfg c Q (f ok) ((h.onBroker .load false).onBroker (.select 0 m) x)) :
    Heralds cfg c Q (Op.sendNotif m >>= f) h := by
  refine ⟨hload, ?_⟩
  rintro (_ | _)
  · refine ⟨hok, ?_⟩
    rintro (_ | _ | _)
    · exact hoffered _ false
    · exact hoffered _ false
    · exact hoffered _ true
  · exact hclosed

/-- A reader that goes on has dealt with its first entry. -/
theorem acquire_heralds {id : String} {ids : List String} {msg : LBSInputMessage}
    {l : LBSInfo} (hl : l.idInLBS = id) :
    Heralds cfg c (fun h e ↦ if e = none then h = .reads ids else h = .reads (id :: ids))
      (processLBSMessage.acquire (cfg c) msg l) (.reads (id :: ids)) := by
  refine ⟨trivial, ?_⟩
  rintro (_ | err)
  · refine ⟨trivial, fun _ ↦ ⟨trivial, fun _ ↦ ?_⟩⟩
    refine Heralds.sendNotif rfl ?_ ?_ ?_
    · exact ⟨trivial, fun _ ↦ ⟨⟨rfl, congrArg some hl.symm⟩, fun _ ↦ rfl⟩⟩
    · exact ⟨rfl, 0, _, rfl, .inr ⟨rfl, congrArg some hl.symm⟩⟩
    · intro x ok
      exact ⟨trivial, fun _ ↦ ⟨rfl, fun _ ↦ rfl⟩⟩
  · exact ⟨trivial, fun _ ↦ rfl⟩

theorem processLBSMessage_heralds {message : XMessage} {ids : List String} :
    Heralds cfg c
      (fun h e ↦ if e = none then h = .reads ids else h = .reads (message.id :: ids))
      (processLBSMessage J (cfg c) message) (.reads (message.id :: ids)) := by
  unfold processLBSMessage
  split
  · rfl
  · rfl
  next val hv =>
  split
  · rfl
  next msg hm =>
  split
  · rfl
  split
  · rfl
  next l hl =>
  unfold createByParts at hl
  split at hl
  · cases hl
  · obtain rfl := Except.ok.inj hl
    exact acquire_heralds rfl

theorem processLBSMessages_heralds {messages : List XMessage} :
    Heralds cfg c (fun h e ↦ ∃ ids, h = .reads ids ∧ (e = none → ids = []))
      (processLBSMessages J (cfg c) messages) (.reads (messages.map XMessage.id)) := by
  induction messages with
  | nil => exact ⟨[], rfl, fun _ ↦ rfl⟩
  | cons message messages ih =>
    rw [processLBSMessages]
    refine processLBSMessage_heralds.bind ?_
    rintro h (_ | err) hh
    · obtain rfl : h = .reads (messages.map XMessage.id) := hh
      exact ih
    · obtain rfl : h = .reads (message.id :: messages.map XMessage.id) := hh
      exact ⟨_, rfl, fun he ↦ by cases he⟩

theorem terminate_heralds {info : String} {ids : List String} :
    Heralds cfg c Herald.Exit (readLBSStream.terminate info) (.reads ids) :=
  Heralds.sendNotif rfl trivial ⟨rfl, 0, _, rfl, .inl rfl⟩ fun _ _ ↦ trivial

theorem readLBSStream_heralds {n d : Int} :
    Heralds cfg c Herald.Exit (readLBSStream J (cfg c) n d) (.reads []) := by
  refine ⟨trivial, ?_⟩
  rintro (_ | _)
  swap
  · exact terminate_heralds
  refine ⟨⟨rfl, rfl, rfl, rfl⟩, ?_⟩
  rintro (err | streams)
  · show Heralds cfg c Herald.Exit (if err.isCanceled then _ else _) (.reads [])
    split
    · exact terminate_heralds
    split
    · exact terminate_heralds
    refine ⟨trivial, ?_⟩
    rintro (_ | _)
    · rfl
    · exact terminate_heralds
  · refine processLBSMessages_heralds.bind ?_
    rintro h (_ | err) ⟨ids, rfl, hids⟩
    · obtain rfl := hids rfl
      show Heralds cfg c Herald.Exit (if 0 < n then _ else _) (.reads [])
      split <;> rfl
    · exact terminate_heralds

/-- What an extender defers to its exit announces nothing more. -/
theorem popIfRecorded_heralds {l : LBSInfo} (h : Herald) :
    Heralds cfg c (fun _ _ ↦ True) (extenderExit.popIfRecorded l) h := by
  refine ⟨trivial, ?_⟩
  rintro (_ | _)
  · exact ⟨trivial, fun _ ↦ trivial⟩
  · trivial

theorem startExtendingKey_heralds {m : RedsyncMutex} {l : LBSInfo} {info : GoMap Value}
    {live : Bool} :
    Heralds cfg c Herald.Exit (startExtendingKey (cfg c) m l info) (.tends l live false) := by
  have hleave {h : Herald} : Heralds cfg c Herald.Exit
      (extenderExit false l info >>= fun _ ↦ .ret (.inl (.extended none))) h :=
    (popIfRecorded_heralds h).bind fun _ _ _ ↦ trivial
  refine ⟨trivial, ?_⟩
  rintro (_ | _)
  swap
  · exact hleave
  have hlive : (Herald.tends l live false).onContextDone false = .tends l true false := by
    simp [Herald.onContextDone]
  show Heralds cfg c Herald.Exit _ ((Herald.tends l live false).onContextDone false)
  rw [hlive]
  refine ⟨trivial, ?_⟩
  rintro (_ | _)
  swap
  · exact hleave
  -- the lock is lost: only now is there something to announce
  have hdisown (err : Option Err) : Heralds cfg c Herald.Exit
      (Op.metric (.lockExtensionAttempt l.dataStreamName false) >>= fun _ ↦
        extenderExit true l info >>= fun _ ↦ .ret (.inl (.extended err))) (.tends l true false) := by
    have hexit : Heralds cfg c (fun _ _ ↦ True) (extenderExit true l info)
        (.tends l true false) :=
      Heralds.sendNotif ⟨rfl, .inl rfl⟩ (popIfRecorded_heralds _)
        ⟨rfl, .inr ⟨rfl, 0, _, rfl, rfl, rfl⟩⟩ fun x ok ↦ popIfRecorded_heralds _
    exact ⟨trivial, fun _ ↦ hexit.bind fun _ _ _ ↦ trivial⟩
  refine ⟨trivial, ?_⟩
  rintro ⟨_ | _, _ | err⟩
  · exact hdisown _
  · exact hdisown _
  · exact ⟨trivial, fun _ ↦ ⟨trivial, fun _ ↦ ⟨true, rfl⟩⟩⟩
  · exact hdisown _

/-! ## The broker -/

/-- The calls on the broker. -/
theorem broker_heralds (f : Broker.Call) :
    Heralds cfg c Herald.Exit (body J cfg c (.broker f)) (.start (.broker f)) := by
  cases f with
  | send ctx m =>
    refine ⟨.inl rfl, ?_⟩
    rintro (_ | _)
    · refine ⟨.inr ⟨ctx, rfl⟩, ?_⟩
      rintro (_ | _ | _) <;> trivial
    · trivial
  | run =>
    refine ⟨⟨rfl, rfl⟩, ?_⟩
    rintro (_ | _ | m)
    · rfl
    · rfl
    · exact ⟨⟨rfl, rfl⟩, fun _ ↦ rfl⟩
  | drain =>
    refine ⟨⟨rfl, rfl⟩, ?_⟩
    rintro ((_ | m) | _)
    · rfl
    · exact ⟨⟨rfl, rfl⟩, fun _ ↦ rfl⟩
    · exact ⟨⟨rfl, trivial⟩, fun _ ↦ ⟨⟨rfl, trivial⟩, fun _ ↦ trivial⟩⟩
  | close =>
    have hfinish : Heralds cfg c Herald.Exit
        (Broker.close.finish.embed (T := sig) .broker (fun _ r ↦ r) >>= fun x ↦
          .ret (x.map .broker .broker)) (.closes true) :=
      ⟨⟨rfl, fun h ↦ by cases h⟩, fun _ ↦ ⟨⟨rfl, fun h ↦ by cases h⟩, fun _ ↦ trivial⟩⟩
    refine ⟨⟨rfl, fun h ↦ by cases h⟩, ?_⟩
    rintro (_ | _)
    · exact hfinish
    · exact ⟨⟨rfl, fun _ ↦ rfl⟩, fun _ ↦ hfinish⟩

theorem body_heralds (f : Call) :
    Heralds cfg c Herald.Exit (body J cfg c f) (.start f) := by
  cases f with
  | claim l => exact (claim_obeys.quiet (.inl rfl)).bind fun _ _ _ ↦ trivial
  | doneStream name => exact ((doneStream_obeys (J := J)).quiet (.inr rfl)).bind fun _ _ _ ↦ trivial
  | reconcile startup =>
    have hpass : Keeps J cfg c (fun q _ ↦ q.Scanning) (reconcileLBS J (cfg c) startup)
        (.recover ⟨true, []⟩ .idle) := reconcileLBS_obeys trivial
    refine (hpass.quiet (.inl rfl)).bind ?_
    rintro h ⟨⟩ rfl
    refine ⟨trivial, ?_⟩
    rintro (_ | _)
    · rfl
    · trivial
  | readLBSStream n d => exact readLBSStream_heralds
  | startExtendingKey m l info => exact startExtendingKey_heralds
  | broker f => exact broker_heralds f

theorem again_heralds {f : Call} (hexit : h.Exit (.inr f)) :
    Heralds cfg c Herald.Exit (body J cfg c f) h := by
  cases f with
  | startExtendingKey m l info =>
    obtain ⟨live, rfl⟩ := hexit
    exact startExtendingKey_heralds
  | _ =>
    obtain rfl : h = .start _ := hexit
    exact body_heralds _

variable (J cfg) in
/-- **The contract on announcements.** -/
@[reducible] def heralds : Contract (machine J cfg) where
  toMonitor := heraldMonitor cfg
  init _ f := .start f
  Exit _ h x := h.Exit x
  body_obeys _ f := body_heralds f
  again_obeys _ _ _ hexit := again_heralds hexit

end

end RedisStreamClient.Impl
