import RedisStreamClient.Impl.Contract

/-!
# The history of a service

A `Service` is a set of clients that share one LBS and its consumer group, none of which uses
the LBS as its DLQ.  The last is not checked by `NewRedisStreamClient`: for a `Fleet` of clients
it is an assumption, which every result about a `Service` rests on.

The runs of a service carry a `History`: what every goroutine is doing (`Session`), and what
happened to the LBS so far, which the server itself forgets: every entry ever added, the
producer's entry it descends from, who was handed it, and how it left the pending list.

The history is only written, never read by the code; `History.update` says what each
event adds to it.
-/

namespace RedisStreamClient.Impl

open RedisStreamClient.Lib RedisStreamClient.Errs RedisStreamClient.Notifs
open RedisStreamClient.Redis

/-- The clients of one service, as `NewRedisStreamClient` makes them. -/
structure Fleet where
  /-- The JSON decoder of the clients. -/
  json : Json
  /-- The clients. -/
  client : Nat → Client
  /-- The name of the service. -/
  name : String
  /-- All clients have that name. -/
  serviceName_eq : ∀ c, (client c).serviceName = name
  /-- `NewRedisStreamClient` gives every client a DLQ. -/
  dlqStream_ne_empty : ∀ c, (client c).recoveryConfig.dlqStream ≠ ""

/-- The clients of one service, none of which uses the LBS as its DLQ. -/
structure Service extends Fleet where
  /-- No client uses the LBS as its DLQ. -/
  dlqStream_ne_lbs : ∀ c, (client c).recoveryConfig.dlqStream ≠ name ++ Configs.inputSuffix

namespace Service

variable (V : Service)

/-- The LBS of the service. -/
def lbs : String := V.name ++ Configs.inputSuffix

/-- The consumer group of the service. -/
def group : String := V.name ++ Configs.groupSuffix

theorem lbsName_eq (c : Nat) : (V.client c).lbsName = V.lbs := by
  rw [Client.lbsName, V.serviceName_eq, lbs]

theorem lbsGroupName_eq (c : Nat) : (V.client c).lbsGroupName = V.group := by
  rw [Client.lbsGroupName, V.serviceName_eq, group]

/-- The machine that runs the clients. -/
abbrev machine : Machine sig := Impl.machine V.json V.client

instance instDecidableEqOwner : DecidableEq V.machine.Owner := inferInstanceAs (DecidableEq Nat)

/-- The contract of the clients. -/
def contract : Contract V.machine := Impl.contract V.json V.client

/-- The entries of the LBS. -/
def stream (s : Server) : Log StreamID Values := s.streams V.lbs

/-- The pending entries of the LBS. -/
def pending (s : Server) : Log StreamID Pending := s.groups V.lbs V.group

/-- Only public calls are made from outside. -/
def Public {V : Service} : Event V.machine → Prop
  | .start _ f => Call.Public f
  | _ => True

instance instDecidablePublic {V : Service} (e : Event V.machine) : Decidable (Public e) :=
  match e with
  | .start _ f => inferInstanceAs (Decidable (Call.Public f))
  | .op _ _ _ _ _ _ | .again _ | .env _ | .crash _ => .isTrue trivial

end Service

/-- Whether a command with this choice takes effect. -/
def Choice.effective (ch : Choice) : Bool :=
  match ch.fault with
  | .fail _ => false
  | .none | .lost _ => true

/-- What happened so far. -/
structure History where
  /-- What every goroutine is doing. -/
  session : Nat → Session
  /-- The entries ever added to the LBS. -/
  added : StreamID → Option Values
  /-- The entries that producers added to the LBS, with those that were there before. -/
  produced : List (StreamID × Values)
  /-- The LBS entry that an LBS entry was re-added from. -/
  parent : StreamID → Option StreamID
  /-- The producer's entry that an LBS entry descends from. -/
  origin : StreamID → Option StreamID
  /-- The producer's entry that a DLQ entry descends from. -/
  dlqOrigin : String → StreamID → Option StreamID
  /-- The consumer that was handed an LBS entry. -/
  consumer : StreamID → Option String
  /-- The LBS entries that a `DoneStream` took off the pending list. -/
  finished : Set StreamID
  /-- The LBS entries that were taken off the pending list for good by anyone else. -/
  lost : Set StreamID
  /-- Those among them that a recoverer took and then did not add again. -/
  dropped : Set StreamID

/-- The entry that a recoverer took off the pending list and has yet to add again. -/
def Stage.holding : Stage → Option StreamID
  | .won e _ => StreamID.ofText? e.id
  | _ => none

/-- The entry that a goroutine in this session holds. -/
def Session.holding : Session → Option StreamID
  | .recover _ stage => stage.holding
  | _ => none

theorem Session.exists_won_of_holding {q : Session} {i : StreamID} (h : q.holding = some i) :
    ∃ scope e name, q = .recover scope (.won e name) ∧ StreamID.ofText? e.id = some i := by
  cases q with
  | recover scope stage =>
    cases stage with
    | won e name => exact ⟨scope, e, name, rfl, h⟩
    | _ => exact absurd h (by simp [holding, Stage.holding])
  | _ => exact absurd h (by simp [holding])

namespace History

variable (V : Service) (h : History) (P : Pool V.machine)

/-- The entry that goroutine `t` holds: its `XACK` returned 1, its `XADD` is yet to
come. -/
def held (t : Nat) : Option StreamID := (h.session t).holding

/-- An event by which goroutine `t` takes the entry `i` off the pending list. -/
def Acks (t : Nat) (i : StreamID) : Event V.machine → Prop
  | .op t' _ (.xack stream group id) ch _ _ =>
    t' = t ∧ stream = V.lbs ∧ group = V.group ∧ ch.effective ∧
      StreamID.ofText? id = some i ∧ i ∈ V.pending P.state.server
  | _ => False

/-- The acknowledgement in an event: who makes it, on which stream and group, of which ID, and how
Redis takes it. -/
def xacked : Event V.machine → Option (Nat × String × String × String × Choice)
  | .op t _ (.xack stream group id) ch _ _ => some (t, stream, group, id, ch)
  | _ => none

/-- Who looks for a key in an event, and for which. -/
def lookedFor : Event V.machine → Option (Nat × String)
  | .op t _ (.existsKey key) _ _ _ => some (t, key)
  | _ => none

theorem acks_iff {t : Nat} {i : StreamID} {e : Event V.machine} :
    Acks V P t i e ↔ ∃ x ∈ xacked V e, x.1 = t ∧ x.2.1 = V.lbs ∧ x.2.2.1 = V.group ∧
      x.2.2.2.2.effective ∧ StreamID.ofText? x.2.2.2.1 = some i ∧ i ∈ V.pending P.state.server := by
  cases e with
  | op t' c o ch r f => cases o <;> simp [Acks, xacked]
  | _ => simp [Acks, xacked]

instance instDecidableAcks (t : Nat) (i : StreamID) (e : Event V.machine) :
    Decidable (Acks V P t i e) := decidable_of_iff' _ (acks_iff V P)

/-- An event by which the entry `i` is dropped: the goroutine that holds it crashes, or its
`XADD` fails. -/
def Drops (i : StreamID) : Event V.machine → Prop
  | .crash c => ∃ t f, P.Live t c f ∧ h.held t = some i
  | .op t _ (.xadd _ _ _) ch _ _ => h.held t = some i ∧ ch.effective = false
  | _ => False

/-- An event by which the entry `i` is lost: it is dropped, or a recoverer that found no such
entry acknowledges it all the same. -/
def Loses (i : StreamID) : Event V.machine → Prop
  | .crash c => h.Drops V P i (.crash c)
  | .op t c (.xadd stream maxLen v) ch r f =>
    h.Drops V P i (.op t c (.xadd stream maxLen v) ch r f)
  | e => ∃ t scope id, Acks V P t i e ∧ h.session t = .recover scope (.missing id)

/-- What an event adds to the LBS: the entry with its fields and its origin. -/
def entryAdded : Event V.machine → Option (StreamID × Values × Option StreamID)
  | .env (.produce stream i v) => if stream = V.lbs then some (i, v, some i) else none
  | .op t _ (.xadd stream _ v) ch _ _ =>
    if stream = V.lbs ∧ ch.effective then some (ch.newID, v, (h.held t).bind h.origin) else none
  | _ => none

/-- The entry that a producer adds to the LBS. -/
def entryProduced : Event V.machine → Option (StreamID × Values)
  | .env (.produce stream i v) => if stream = V.lbs then some (i, v) else none
  | _ => none

/-- The entry that an event adds to the LBS again, after the one it comes from. -/
def reAdded : Event V.machine → Option (StreamID × StreamID)
  | .op t _ (.xadd stream _ _) ch _ _ =>
    if stream = V.lbs ∧ ch.effective then (h.held t).map fun i ↦ (i, ch.newID) else none
  | _ => none

/-- What an event adds to a DLQ: the entry with its origin. -/
def copyAdded : Event V.machine → Option (String × StreamID × Option StreamID)
  | .op t _ (.xadd stream _ _) ch _ _ =>
    if stream ≠ V.lbs ∧ ch.effective then some (stream, ch.newID, (h.held t).bind h.origin)
    else none
  | _ => none

/-- Who an event hands the undelivered entries of the LBS to. -/
def handedOut : Event V.machine → Option String
  | .op _ _ (.xreadGroup group consumer stream) ch _ _ =>
    if group = V.group ∧ stream = V.lbs ∧ ch.effective then some consumer else none
  | _ => none

/-- The history after an event. -/
def update (h : History) (P : Pool V.machine) (e : Event V.machine) : History where
  session := V.contract.track h.session P e
  added := match h.entryAdded V e with
    | some (i, v, _) => Function.update h.added i (some v)
    | none => h.added
  produced := (entryProduced V e).toList ++ h.produced
  parent := match h.reAdded V e with
    | some (i, j) => Function.update h.parent j (some i)
    | none => h.parent
  origin := match h.entryAdded V e with
    | some (i, _, x) => Function.update h.origin i x
    | none => h.origin
  dlqOrigin := match h.copyAdded V e with
    | some (s, i, x) => Function.update h.dlqOrigin s (Function.update (h.dlqOrigin s) i x)
    | none => h.dlqOrigin
  consumer := match handedOut V e with
    | some n => fun i ↦
        if i ∈ V.stream P.state.server ∧ (V.pending P.state.server).top < i then some n
        else h.consumer i
    | none => h.consumer
  finished := h.finished ∪ {i | ∃ t info, Acks V P t i e ∧ h.session t = .popped info}
  lost := h.lost ∪ {i | h.Loses V P i e}
  dropped := h.dropped ∪ {i | h.Drops V P i e}

section

variable {V h P} {e : Event V.machine} {t : Nat}

/-- The goroutine that moves goes on to its next session. -/
theorem session_op {c : Nat} {o : Op} {ch : Choice} {r : o.Reply} {g : Option Call}
    (ht : t < P.threads.length) :
    (h.update V P (.op (M := V.machine) t c o ch r g)).session t =
      (h.session t).next V.json (V.client c) o r := by
  show V.contract.track h.session P (.op t c o ch r g) t = _
  exact Contract.track_op_self ht

/-- The others stay in theirs. -/
theorem session_of_mover_ne (ht : t < P.threads.length) (hne : e.mover ≠ some t) :
    (h.update V P e).session t = h.session t :=
  Contract.track_of_mover_ne ht hne

/-- A new goroutine starts in the session of its call. -/
theorem session_starts {c : Nat} {f : Call} (hst : e.starts = some (c, f)) :
    (h.update V P e).session P.threads.length = .start f :=
  Contract.track_starts hst

end

section Acks

variable {V P} {e : Event V.machine} {t u : Nat} {i j : StreamID}

/-- An entry is taken off the pending list by an `XACK` that takes effect. -/
theorem Acks.exists_op (hi : Acks V P t i e) :
    ∃ c id ch r f, e = .op t c (.xack V.lbs V.group id) ch r f ∧ ch.effective ∧
      StreamID.ofText? id = some i ∧ i ∈ V.pending P.state.server := by
  cases e with
  | op t' c o ch r f =>
    cases o with
    | xack stream group id =>
      obtain ⟨rfl, rfl, rfl, hf, hid, hp⟩ := hi
      exact ⟨c, id, ch, r, f, rfl, hf, hid, hp⟩
    | _ => exact hi.elim
  | _ => exact hi.elim

theorem Acks.pending (hi : Acks V P t i e) : i ∈ V.pending P.state.server := by
  obtain ⟨_, _, _, _, _, -, -, -, hp⟩ := hi.exists_op
  exact hp

theorem Acks.mover_eq (hi : Acks V P t i e) : e.mover = some t := by
  obtain ⟨_, _, _, _, _, rfl, -⟩ := hi.exists_op
  rfl

/-- An event takes at most one entry off the pending list. -/
theorem acks_unique (hi : Acks V P t i e) (hj : Acks V P u j e) : u = t ∧ j = i := by
  obtain ⟨_, _, _, _, _, rfl, -, hi, -⟩ := hi.exists_op
  obtain ⟨rfl, -, -, -, hj, -⟩ := hj
  exact ⟨rfl, Option.some.inj (hj.symm.trans hi)⟩

end Acks

/-- The history of a service that has just started on a server. -/
def init (s : Server) : History where
  session _ := .over
  added := (V.stream s).lookup
  produced := (V.stream s).entries
  parent _ := none
  origin _ := none
  dlqOrigin _ _ := none
  consumer _ := none
  finished := ∅
  lost := ∅
  dropped := ∅

end History

end RedisStreamClient.Impl
