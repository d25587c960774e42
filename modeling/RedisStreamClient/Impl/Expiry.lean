import Mathlib.Data.Multiset.OrderedMonoid
import RedisStreamClient.Impl.Drain
import RedisStreamClient.Impl.Topology
import RedisStreamClient.Impl.Works
import RedisStreamClient.Lib.Holdings

/-!
# The way of an expiry event

A keyspace event arrives on a subscription, whose fan-in puts it into `kspChan` or drops it if
the channel is full; the listener takes it from there and tells the user of the expired stream,
unless the event does not decode or `cleanup` has drained it.

A `Courier` is how far a goroutine is with the event that it has in hand.  `Fed` adds up: an
event that arrived is in the channel or was taken from it, was dropped and reported, or is in the
hand of its fan-in; and the user is told of a stream for an event that the listener has heard, and
only once.
-/

namespace RedisStreamClient.Impl.Lifecycle

open RedisStreamClient.Lib RedisStreamClient.Errs RedisStreamClient.Notifs

/-- What an event announces, if it decodes. -/
def Message.decode (m : Message) : Option LBSInfo := (decodeKsp m.channel m.payload).toOption

/-- The operation announces an expired stream. -/
def tellsExpiry : Impl.Op → Bool
  | .broker (.select _ m) => decide (m.type = .streamExpired)
  | _ => false

/-- The call sends a notification from outside. -/
def Call.isSend : Call → Bool
  | .client (.broker (.send _ _)) => true
  | _ => false

theorem Call.isSend_of_isSetup {f : Call} (h : f.isSetup = true) : f.isSend = false := by
  cases f with
  | client f =>
    cases f with
    | broker f => cases f <;> first | rfl | cases h
    | _ => rfl
  | _ => rfl

/-- The operations that handle keyspace events, or start who does so from outside. -/
def Op.handles : Op → Bool
  | .nextMessage _ | .trySendKsp _ | .kspSelect => true
  | .client o => tellsExpiry o
  | .go f => f.isSend
  | _ => false

/-! ## Couriers -/

/-- How far a goroutine is with an event. -/
inductive Courier
  | /-- It has nothing to do with events. -/
    aside
  | /-- A fan-in at the head of its loop. -/
    fans
  | /-- A fan-in with an event that arrived. -/
    carries (m : Message)
  | /-- A fan-in that has dropped an event. -/
    drops
  | /-- The listener, with the event that it heard last unless it announced it. -/
    listens (m : Option Message)
  | /-- A call of `Send` from outside. -/
    outside

namespace Courier

/-- What is allowed. -/
def Ok (q : Courier) : Op → Prop
  | .nextMessage _ => q = .fans
  | .trySendKsp m => q = .carries m
  | .kspSelect => ∃ m, q = .listens m
  | .client (.broker (.select _ m)) => q ≠ .drops ∧ (m.type = .streamExpired →
      q = .outside ∨ ∃ msg, q = .listens (some msg) ∧ msg.decode = some m.payload)
  | .go f => q ≠ .drops ∧ f.isSend = false
  | o => q = .drops → o = .client (.record .kspNotificationDropped)

/-- What a goroutine goes on to. -/
def next : Courier → (o : Op) → o.Reply → Courier
  | q, .nextMessage _, x => (show Option Message from x).elim q .carries
  | _, .trySendKsp _, ok => if (show Bool from ok) then .fans else .drops
  | _, .kspSelect, m => .listens m
  | .drops, .client (.record .kspNotificationDropped), _ => .fans
  | .listens msg, .client (.broker (.select _ m)), _ =>
    if m.type = .streamExpired then .listens none else .listens msg
  | q, _, _ => q

/-- How far a new goroutine is. -/
def start (f : Call) : Courier :=
  match f with
  | .fanIn _ => .fans
  | .listenKsp => .listens none
  | f => if f.isSend then .outside else .aside

/-- When a goroutine may go round its loop. -/
def Exit (q : Courier) : Res ⊕ Call → Prop
  | .inl _ => True
  | .inr .listenKsp => ∃ m, q = .listens m
  | .inr f => q = .start f

end Courier

/-- The monitor of couriers. -/
@[reducible] def courierMonitor : Monitor sig Unit where
  State := Courier
  Ok _ q o := q.Ok o
  next _ q o x := q.next o x

section

variable {A B : Type} {J : Json} {r : Config} {q : Courier} {Q : Courier → A → Prop}

/-- A program handles events as it should from `q` on and ends as `Q` says. -/
def Handles (Q : Courier → A → Prop) (p : Prog sig A) (q : Courier) : Prop :=
  p.Obeys courierMonitor () Q q

theorem Handles.call {o : Op} {k : o.Reply → Prog sig A} (ho : q.Ok o)
    (h : ∀ x, Handles Q (k x) (q.next o x)) : Handles Q (.call o k) q := ⟨ho, h⟩

theorem Handles.bind {R : Courier → B → Prop} {p : Prog sig A} {f : A → Prog sig B}
    (hp : Handles Q p q) (hf : ∀ q' a, Q q' a → Handles R (f a) q') : Handles R (p >>= f) q :=
  Prog.Obeys.bind hp hf

/-- What handles no events is allowed, unless a drop has to be counted first. -/
theorem ok_of_ne_drops {o : Op} (hq : q ≠ .drops) (ho : o.handles = false) : q.Ok o := by
  cases o with
  | client o =>
    cases o with
    | broker b =>
      cases b with
      | select ctx m => exact ⟨hq, fun hm ↦ absurd hm (of_decide_eq_false ho)⟩
      | _ => exact fun h ↦ absurd h hq
    | _ => exact fun h ↦ absurd h hq
  | nextMessage _ | trySendKsp _ | kspSelect => cases ho
  | go f => exact ⟨hq, ho⟩
  | _ => exact fun h ↦ absurd h hq

/-- What handles no events is aside. -/
theorem ok_aside {o : Op} (ho : o.handles = false) :
    Courier.aside.Ok o ∧ ∀ x, Courier.aside.next o x = .aside := by
  refine ⟨ok_of_ne_drops Courier.noConfusion ho, fun x ↦ ?_⟩
  cases o with
  | client o =>
    cases o with
    | broker b => cases b <;> rfl
    | record m => cases m <;> rfl
    | _ => rfl
  | nextMessage _ | trySendKsp _ | kspSelect => cases ho
  | _ => rfl

theorem Plain.handles {p : Prog sig A} (hp : Plain p) :
    Handles (fun q _ ↦ q = .aside) p .aside := by
  refine Prog.Only.obeys hp fun (o : Op) ho ↦ ok_aside ?_
  cases o with
  | client o => cases o <;> first | rfl | cases ho
  | go f => exact Call.isSend_of_isSetup ho
  | _ => first | rfl | cases ho

/-! ## The goroutines of the LBS -/

/-- The goroutines of the LBS announce no expired stream. -/
theorem Session.tellsExpiry_of_ok {q : Impl.Session} {o : Impl.Op} (hrole : q.role ≠ .broker)
    (hok : q.Ok J r.client o) : tellsExpiry o = false := by
  cases o with
  | broker b =>
    cases b with
    | select ctx m =>
      refine decide_eq_false fun hm ↦ ?_
      replace hok : q.OkSend m := hok
      cases q with
      | recorded i todo =>
        obtain rfl : m = make .streamAdded i.lbsInfo i.additionalInfo := hok
        cases hm
      | disowned i =>
        obtain rfl : m = make .streamDisowned i.lbsInfo i.additionalInfo := hok
        cases hm
      | batch todo => cases hm.symm.trans hok
      | stopped => cases hm.symm.trans hok
      | broker => exact hrole rfl
      | _ => exact hok
    | _ => rfl
  | _ => rfl

theorem handles_lift {p : Prog Impl.sig A} {q : Impl.Session} {R : Impl.Session → A → Prop}
    (hp : Keeps J (fun _ ↦ r.client) 0 R p q) (hrole : q.role ≠ .broker) :
    Handles (fun w a ↦ w = .aside ∧ ∃ q' : Impl.Session, q'.role ≠ .broker ∧ R q' a) (Op.lift p)
      .aside := by
  refine (Prog.Obeys.embed (R := fun (q : Impl.Session) w ↦ w = Courier.aside ∧ q.role ≠ .broker)
    ?_ hp ⟨rfl, hrole⟩).mono ?_
  · rintro q _ o ⟨rfl, hrole⟩ hok
    obtain ⟨ho, hnext⟩ := ok_aside (o := .client o) (Session.tellsExpiry_of_ok hrole hok)
    exact ⟨ho, fun x ↦ ⟨hnext x, fun h ↦ hrole ((Impl.Session.role_next hok x).symm.trans h)⟩⟩
  · rintro w a ⟨q', ⟨rfl, hrole⟩, ha⟩
    exact ⟨rfl, q', hrole, ha⟩

/-- A call that handles no events stays aside. -/
theorem handles_aside {p : Prog sig (Res ⊕ Call)} {P : Op → Prop} {R : Res ⊕ Call → Prop}
    (hp : p.Within P R) (hP : ∀ o, P o → o.handles = false)
    (hR : ∀ a, R a → Courier.aside.Exit a) : Handles Courier.Exit p .aside :=
  hp.obeys (fun o ho ↦ ok_aside (hP o ho)) hR

/-- The loops of the broker announce nothing. -/
theorem handles_broker {f : Broker.Call} (hf : Call.isSend (.client (.broker f)) = false) :
    Handles Courier.Exit (body J r (.client (.broker f))) .aside := by
  have hsend (ctx : Nat) (m : RecoverableRedisNotification) : f ≠ .send ctx m := by
    rintro rfl
    cases hf
  refine handles_aside (body_broker_within (P := fun o : Op ↦ o.handles = false) hsend ?_)
    (fun _ ho ↦ ho) ?_
  · intro o ho
    cases o <;> first | rfl | cases ho
  · rintro _ (⟨x, rfl⟩ | ⟨g, rfl, hg⟩)
    · trivial
    · cases g <;> first | exact (rfl : Courier.aside = .aside) | cases hg

theorem handles_send (ctx : Nat) (m : RecoverableRedisNotification) :
    Handles Courier.Exit (body J r (.client (.broker (.send ctx m)))) .outside := by
  refine .call (o := .client (.broker .load)) nofun ?_
  rintro (_ | _)
  · refine .call (o := .client (.broker (.select ctx m))) ⟨nofun, fun _ ↦ .inl rfl⟩ ?_
    rintro (_ | _ | _) <;> trivial
  · trivial

theorem handles_client (f : Impl.Call) :
    Handles Courier.Exit (body J r (.client f)) (.start (.client f)) := by
  cases f with
  | broker f =>
    cases f with
    | send ctx m => exact handles_send ctx m
    | _ => exact handles_broker rfl
  | _ =>
    refine (handles_lift (Impl.body_obeys (.inl rfl)) ?_).bind ?_
    · intro h
      cases h
    · rintro _ (x | g) ⟨rfl, q', hrole, hexit⟩
      · trivial
      · cases g with
        | broker g =>
          obtain rfl : q' = .broker := hexit
          exact absurd rfl hrole
        | _ => exact (rfl : Courier.aside = .aside)

/-! ## `Done` -/

theorem handles_done : Handles Courier.Exit (done r) .aside := by
  refine handles_aside done_within (fun o ho ↦ ?_) ?_
  · cases o with
    | client o => cases o <;> first | rfl | cases ho
    | _ => first | rfl | cases ho
  · rintro _ (⟨err, rfl⟩ | rfl)
    · trivial
    · exact (rfl : Courier.aside = .aside)

theorem handles_cleanup : Handles Courier.Exit cleanup .aside := by
  refine handles_aside cleanup_within (fun o ho ↦ ?_) ?_
  · cases o with
    | client o =>
      cases o with
      | broker b => cases b <;> first | rfl | cases ho
      | _ => cases ho
    | _ => first | rfl | cases ho
  · rintro _ (⟨err, rfl⟩ | rfl)
    · trivial
    · exact (rfl : Courier.aside = .aside)

/-! ## The goroutines of the events -/

theorem handles_fanIn (ps : Nat) : Handles Courier.Exit (fanIn ps) .fans := by
  refine .call (o := .nextMessage ps) (rfl : Courier.fans = .fans) ?_
  rintro (_ | msg)
  · trivial
  · refine .call (o := .trySendKsp msg) (rfl : Courier.carries msg = .carries msg) ?_
    rintro (_ | _)
    · exact .call (o := .client (.record .kspNotificationDropped)) (fun _ ↦ rfl)
        fun _ ↦ (rfl : Courier.fans = .fans)
    · exact (rfl : Courier.fans = .fans)

theorem handles_listenKsp (m : Option Message) : Handles Courier.Exit listenKsp (.listens m) := by
  refine .call (o := .kspSelect) ⟨m, rfl⟩ ?_
  rintro (_ | msg)
  · trivial
  · have hdrops : Courier.listens (some msg) ≠ .drops := Courier.noConfusion
    have hround : Handles Courier.Exit (.ret (.inr .listenKsp)) (.listens (some msg)) :=
      ⟨some msg, rfl⟩
    show Handles Courier.Exit (listenKsp.relay msg) (.listens (some msg))
    rw [listenKsp.relay]
    split
    · exact hround
    · next streamName hname =>
      refine .call (o := .client (.record (.kspNotification streamName)))
        (ok_of_ne_drops hdrops rfl) fun _ ↦ ?_
      show Handles Courier.Exit _ (.listens (some msg))
      split
      · exact hround
      · next l hl =>
        have hdecode : msg.decode = some l := by
          simp [Message.decode, decodeKsp, hname, hl, bind, Except.bind, Except.toOption]
        refine .call (o := .additionalInfo _) (ok_of_ne_drops hdrops rfl) fun info ↦ ?_
        refine .call (o := .client (.broker .load)) (ok_of_ne_drops hdrops rfl) ?_
        rintro (_ | _)
        · refine .call (o := .client (.broker (.select 0 (make .streamExpired l info))))
            ⟨hdrops, fun _ ↦ .inr ⟨msg, rfl, hdecode⟩⟩ ?_
          rintro (_ | _ | _) <;> exact ⟨none, rfl⟩
        · exact ⟨some msg, rfl⟩

/-- Every call handles events as it should. -/
theorem handles_body (f : Call) : Handles Courier.Exit (body J r f) (.start f) := by
  cases f with
  | client f => exact handles_client f
  | done => exact handles_done
  | cleanup => exact handles_cleanup
  | init => exact plain_init.handles.bind fun _ _ _ ↦ trivial
  | reinitTopology => exact plain_reinitTopology.handles.bind fun _ _ _ ↦ trivial
  | callback g f node =>
    refine (plain_callback g node f).handles.bind ?_
    rintro _ err rfl
    exact .call (o := .callbackDone g node err) nofun fun _ ↦ trivial
  | fanIn ps => exact handles_fanIn ps
  | listenKsp => exact handles_listenKsp none

theorem handles_again {f : Call} (hq : q.Exit (.inr f)) : Handles Courier.Exit (body J r f) q := by
  cases f with
  | listenKsp =>
    obtain ⟨m, rfl⟩ := hq
    exact handles_listenKsp m
  | _ =>
    obtain rfl : q = .start _ := hq
    exact handles_body _

end

/-- **The contract of the events.** -/
@[reducible] def couriers (J : Json) (r : Config) : Contract (machine J r) where
  toMonitor := courierMonitor
  init _ f := .start f
  Exit _ q a := q.Exit a
  body_obeys _ f := handles_body f
  again_obeys _ _ _ hq := handles_again hq

/-! ## What the operations do with events -/

namespace Op

/-- The event that arrives. -/
def arrived : (o : Op) → o.Reply → List Message
  | .nextMessage _, x => (show Option Message from x).toList
  | _, _ => []

/-- The event that is put into `kspChan`. -/
def queued : (o : Op) → o.Reply → List Message
  | .trySendKsp m, ok => if (show Bool from ok) then [m] else []
  | _, _ => []

/-- The event that is dropped. -/
def dropped : (o : Op) → o.Reply → List Message
  | .trySendKsp m, ok => if (show Bool from ok) then [] else [m]
  | _, _ => []

/-- The event that the listener takes from `kspChan`. -/
def heard : (o : Op) → o.Reply → List Message
  | .kspSelect, x => (show Option Message from x).toList
  | _, _ => []

/-- The event that is taken from `kspChan`. -/
def taken : (o : Op) → o.Reply → List Message
  | .kspReceive, m => [m]
  | o, x => o.heard x

/-- The expired stream that the broker is told of. -/
def told : (o : Op) → o.Reply → List LBSInfo
  | .client (.broker (.select _ m)), _ => if m.type = .streamExpired then [m.payload] else []
  | _, _ => []

theorem heard_sublist {o : Op} (x : o.Reply) : (o.heard x).Sublist (o.taken x) := by
  cases o with
  | kspReceive => exact List.nil_sublist _
  | _ => exact .refl _

end Op

namespace Courier

/-- The event in the hand of a fan-in. -/
def carried : Courier → Multiset Message
  | .carries m => {m}
  | _ => 0

/-- How many drops a fan-in has yet to report. -/
def owed : Courier → Nat
  | .drops => 1
  | _ => 0

/-- How many drops an operation reports. -/
def reports : Courier → Op → Nat
  | .drops, .client (.record .kspNotificationDropped) => 1
  | _, _ => 0

/-- The expired stream that the listener has yet to announce. -/
def news : Courier → Multiset LBSInfo
  | .listens m => (m.bind Message.decode).toList
  | _ => 0

variable {q : Courier} {o : Op}

/-- What handles no events moves none. -/
theorem moves_none (ho : o.handles = false) (x : o.Reply) :
    o.arrived x = [] ∧ o.queued x = [] ∧ o.dropped x = [] ∧ o.heard x = [] ∧ o.told x = [] := by
  cases o with
  | nextMessage _ | trySendKsp _ | kspSelect => cases ho
  | client o =>
    cases o with
    | broker b =>
      cases b with
      | select ctx m => exact ⟨rfl, rfl, rfl, rfl, if_neg (of_decide_eq_false ho)⟩
      | _ => exact ⟨rfl, rfl, rfl, rfl, rfl⟩
    | _ => exact ⟨rfl, rfl, rfl, rfl, rfl⟩
  | _ => exact ⟨rfl, rfl, rfl, rfl, rfl⟩

/-- What handles no events leaves a goroutine where it is, unless it reports a drop. -/
theorem next_cases (hok : q.Ok o) (ho : o.handles = false) (x : o.Reply) :
    (q.next o x = q ∧ q.reports o = 0) ∨
      (q = .drops ∧ q.next o x = .fans ∧ q.reports o = 1) := by
  cases q with
  | drops =>
    right
    cases o with
    | nextMessage _ | trySendKsp _ | kspSelect => cases ho
    | client o =>
      cases o with
      | broker b =>
        cases b with
        | select ctx m => exact absurd rfl hok.1
        | _ => cases hok rfl
      | record m =>
        cases hok rfl
        exact ⟨rfl, rfl, rfl⟩
      | _ => cases hok rfl
    | go f => exact absurd rfl hok.1
    | _ => cases hok rfl
  | listens msg =>
    left
    cases o with
    | nextMessage _ | trySendKsp _ | kspSelect => cases ho
    | client o =>
      cases o with
      | broker b =>
        cases b with
        | select ctx m => exact ⟨if_neg (of_decide_eq_false ho), rfl⟩
        | _ => exact ⟨rfl, rfl⟩
      | record m => cases m <;> exact ⟨rfl, rfl⟩
      | _ => exact ⟨rfl, rfl⟩
    | _ => exact ⟨rfl, rfl⟩
  | _ =>
    left
    cases o with
    | nextMessage _ | trySendKsp _ | kspSelect => cases ho
    | client o =>
      cases o with
      | broker b => cases b <;> exact ⟨rfl, rfl⟩
      | record m => cases m <;> exact ⟨rfl, rfl⟩
      | _ => exact ⟨rfl, rfl⟩
    | _ => exact ⟨rfl, rfl⟩

/-- **How an event is handled.** -/
theorem handled_cases (hok : q.Ok o) (ho : o.handles = true) (x : o.Reply) :
    (∃ ps m, (⟨o, x⟩ : (o : Op) × o.Reply) = ⟨.nextMessage ps, m⟩ ∧ q = .fans) ∨
      (∃ m ok, (⟨o, x⟩ : (o : Op) × o.Reply) = ⟨.trySendKsp m, ok⟩ ∧ q = .carries m) ∨
      (∃ m m₀, (⟨o, x⟩ : (o : Op) × o.Reply) = ⟨.kspSelect, m⟩ ∧ q = .listens m₀) ∨
      ∃ ctx m, o = .client (.broker (.select ctx m)) ∧ m.type = .streamExpired ∧
        (q = .outside ∨ ∃ msg, q = .listens (some msg) ∧ msg.decode = some m.payload) := by
  cases o with
  | nextMessage ps => exact .inl ⟨ps, x, rfl, hok⟩
  | trySendKsp m => exact .inr (.inl ⟨m, x, rfl, hok⟩)
  | kspSelect =>
    obtain ⟨m₀, hq⟩ := hok
    exact .inr (.inr (.inl ⟨x, m₀, rfl, hq⟩))
  | client o =>
    cases o with
    | broker b =>
      cases b with
      | select ctx m =>
        have hm : m.type = .streamExpired := of_decide_eq_true ho
        exact .inr (.inr (.inr ⟨ctx, m, rfl, hm, hok.2 hm⟩))
      | _ => cases ho
    | _ => cases ho
  | go f => cases ho.symm.trans hok.2
  | _ => cases ho

/-- Nobody comes to send from outside. -/
theorem next_ne_outside (hok : q.Ok o) (hq : q ≠ .outside) (x : o.Reply) :
    q.next o x ≠ .outside := by
  by_cases ho : o.handles = true
  · rcases handled_cases hok ho x with ⟨ps, m, ⟨⟩, rfl⟩ | ⟨m, ok, ⟨⟩, rfl⟩ | ⟨m, m₀, ⟨⟩, rfl⟩ |
      ⟨ctx, m, rfl, hm, rfl | ⟨msg, rfl, -⟩⟩
    · cases m <;> nofun
    · cases ok <;> nofun
    · nofun
    · exact absurd rfl hq
    · simp [next, hm]
  · rcases next_cases hok (Bool.eq_false_iff.2 ho) x with ⟨hn, -⟩ | ⟨rfl, hn, -⟩ <;> rw [hn]
    · exact hq
    · nofun

/-- A fan-in puts down what it picked up. -/
theorem carried_next (hok : q.Ok o) (x : o.Reply) :
    (o.arrived x : Multiset Message) + q.carried =
      (o.queued x + o.dropped x : Multiset Message) + (q.next o x).carried := by
  by_cases ho : o.handles = true
  · rcases handled_cases hok ho x with ⟨ps, m, ⟨⟩, rfl⟩ | ⟨m, ok, ⟨⟩, rfl⟩ | ⟨m, m₀, ⟨⟩, rfl⟩ |
      ⟨ctx, m, rfl, hm, rfl | ⟨msg, rfl, -⟩⟩
    · cases m <;> rfl
    · cases ok <;> rfl
    · rfl
    · rfl
    · simp [Op.arrived, Op.queued, Op.dropped, next, hm, carried]
  · obtain ⟨ha, hq, hd, -⟩ := moves_none (Bool.eq_false_iff.2 ho) x
    rw [ha, hq, hd]
    rcases next_cases hok (Bool.eq_false_iff.2 ho) x with ⟨hn, -⟩ | ⟨rfl, hn, -⟩ <;> rw [hn] <;> rfl

/-- A drop is reported. -/
theorem owed_next (hok : q.Ok o) (x : o.Reply) :
    (o.dropped x).length + q.owed = q.reports o + (q.next o x).owed := by
  by_cases ho : o.handles = true
  · rcases handled_cases hok ho x with ⟨ps, m, ⟨⟩, rfl⟩ | ⟨m, ok, ⟨⟩, rfl⟩ | ⟨m, m₀, ⟨⟩, rfl⟩ |
      ⟨ctx, m, rfl, hm, rfl | ⟨msg, rfl, -⟩⟩
    · cases m <;> rfl
    · cases ok <;> rfl
    · rfl
    · rfl
    · simp [Op.dropped, next, hm, owed, reports]
  · obtain ⟨-, -, hd, -⟩ := moves_none (Bool.eq_false_iff.2 ho) x
    rw [hd]
    rcases next_cases hok (Bool.eq_false_iff.2 ho) x with ⟨hn, hr⟩ | ⟨rfl, hn, hr⟩ <;>
      rw [hn, hr] <;> rfl

/-- The listener announces what it heard, once. -/
theorem news_next (hok : q.Ok o) (hq : q ≠ .outside) (x : o.Reply) :
    (o.told x : Multiset LBSInfo) + (q.next o x).news ≤
      ((o.heard x).filterMap Message.decode : Multiset LBSInfo) + q.news := by
  by_cases ho : o.handles = true
  · rcases handled_cases hok ho x with ⟨ps, m, ⟨⟩, rfl⟩ | ⟨m, ok, ⟨⟩, rfl⟩ | ⟨m, m₀, ⟨⟩, rfl⟩ |
      ⟨ctx, m, rfl, hm, rfl | ⟨msg, rfl, hmsg⟩⟩
    · cases m <;> exact le_rfl
    · cases ok <;> exact le_rfl
    · -- whatever it heard before, it forgets
      refine le_trans (le_of_eq ?_) (Multiset.le_add_right _ _)
      cases m with
      | none => rfl
      | some m =>
        have hlist : [m].filterMap Message.decode = m.decode.toList := by
          cases hd : m.decode <;> simp [hd]
        show (0 : Multiset LBSInfo) + (m.decode.toList : Multiset LBSInfo) =
          ([m].filterMap Message.decode : List LBSInfo)
        rw [hlist, zero_add]
    · exact absurd rfl hq
    · simp [Op.told, Op.heard, next, hm, news, hmsg]
  · obtain ⟨-, -, -, hh, ht⟩ := moves_none (Bool.eq_false_iff.2 ho) x
    rw [hh, ht]
    rcases next_cases hok (Bool.eq_false_iff.2 ho) x with ⟨hn, -⟩ | ⟨rfl, hn, -⟩ <;>
      rw [hn] <;> exact le_rfl

end Courier

/-! ## Runs -/

/-- **`kspChan` is a queue**, of bounded length. -/
theorem State.exec_kspQueue {o : Op} {ch : Choice} {s s' : State} {x : o.Reply} {f : Option Call}
    (h : exec o ch s = some (x, s', f)) :
    s.kspChan ++ o.queued x = o.taken x ++ s'.kspChan ∧
      (s.kspChan.length ≤ Configs.defaultKspChanSize →
        s'.kspChan.length ≤ Configs.defaultKspChanSize) := by
  have hsame (hq : o.queued x = []) (ht : o.taken x = []) (heq : s'.kspChan = s.kspChan) :
      s.kspChan ++ o.queued x = o.taken x ++ s'.kspChan ∧
        (s.kspChan.length ≤ Configs.defaultKspChanSize →
          s'.kspChan.length ≤ Configs.defaultKspChanSize) := by
    rw [hq, ht, heq, List.append_nil]
    exact ⟨rfl, id⟩
  cases o with
  | trySendKsp m =>
    rw [exec] at h
    split at h
    · next hlt =>
      obtain ⟨rfl, rfl, -⟩ := some_inj h
      exact ⟨rfl, fun _ ↦ by simpa using Nat.succ_le_of_lt hlt⟩
    · obtain ⟨rfl, rfl, -⟩ := some_inj h
      exact hsame rfl rfl rfl
  | kspSelect =>
    rw [exec] at h
    split at h
    · split at h
      · obtain ⟨rfl, rfl, -⟩ := some_inj h
        exact hsame rfl rfl rfl
      · cases h
    · split at h
      · next m ms hm =>
        obtain ⟨rfl, rfl, -⟩ := some_inj h
        rw [hm]
        exact ⟨List.append_nil _, fun hle ↦ (Nat.le_succ _).trans hle⟩
      · cases h
  | kspReceive =>
    rw [exec] at h
    split at h
    · next m ms hm =>
      obtain ⟨rfl, rfl, -⟩ := some_inj h
      rw [hm]
      exact ⟨List.append_nil _, fun hle ↦ (Nat.le_succ _).trans hle⟩
    · cases h
  | forEach f =>
    rw [exec] at h
    split at h <;>
    · obtain ⟨-, rfl, -⟩ := some_inj h
      exact hsame rfl rfl rfl
  | callbackDone _ _ _ | appendReport _ _ | countSetup _ _ | pSubscribe _ | ossAdd _
  | ossCloseAll | setPubSub _ | closePubSub _ =>
    obtain ⟨-, rfl, -⟩ := some_inj h
    exact hsame rfl rfl rfl
  | _ => exact hsame rfl rfl (exec_same h (fun ho ↦ ho)).kspChan

/-- What is kept of the events. -/
structure Feed where
  /-- How far the goroutines are. -/
  courier : Nat → Courier
  /-- The events that arrived. -/
  arrived : List Message
  /-- Those that were put into `kspChan`. -/
  queued : List Message
  /-- Those that were dropped. -/
  dropped : List Message
  /-- Those that were taken from `kspChan`. -/
  taken : List Message
  /-- Those that the listener took. -/
  heard : List Message
  /-- How many drops were reported. -/
  reported : Nat
  /-- The expired streams that the broker was told of. -/
  told : List LBSInfo

section

variable {J : Json} {r : Config}

/-- What is kept after an event. -/
def Feed.update (γ : Feed) (P : Pool (machine J r)) (e : Event (machine J r)) : Feed :=
  match e with
  | .op t _ o _ x _ =>
    { courier := (couriers J r).track γ.courier P e, arrived := γ.arrived ++ o.arrived x
      queued := γ.queued ++ o.queued x, dropped := γ.dropped ++ o.dropped x
      taken := γ.taken ++ o.taken x, heard := γ.heard ++ o.heard x
      reported := γ.reported + (γ.courier t).reports o, told := γ.told ++ o.told x }
  | _ => { γ with courier := (couriers J r).track γ.courier P e }

/-- Nothing arrived yet. -/
def Feed.new : Feed := ⟨fun _ ↦ .aside, [], [], [], [], [], 0, []⟩

/-- The client does not crash, and nobody sends notifications from outside. -/
def Undisturbed : Event (machine J r) → Prop
  | .start _ f => f.isSend = false
  | .crash _ => False
  | .op _ _ _ _ _ _ | .again _ | .env _ => True

instance : @DecidablePred (Event (machine J r)) Undisturbed
  | .start _ f => inferInstanceAs (Decidable (f.isSend = false))
  | .crash _ => .isFalse id
  | .op _ _ _ _ _ _ | .again _ | .env _ => .isTrue trivial

/-- **What holds in every run.** -/
structure Fed (P : Pool (machine J r)) (γ : Feed) : Prop where
  /-- The goroutines keep their contract. -/
  obeying : (couriers J r).Obeying P γ.courier
  /-- Nobody sends from outside. -/
  inside : ∀ t c f, P.Live t c f → γ.courier t ≠ .outside
  /-- What arrived was put into `kspChan`, was dropped, or is in the hand of a fan-in. -/
  arrived : (γ.arrived : Multiset Message) = (γ.queued + γ.dropped : Multiset Message) +
    (couriers J r).held Courier.carried P γ.courier
  /-- What was dropped was reported, or is yet to be. -/
  dropped : γ.dropped.length = γ.reported + (couriers J r).held Courier.owed P γ.courier
  /-- `kspChan` is a queue. -/
  queued : γ.queued = γ.taken ++ P.state.kspChan
  /-- It is bounded. -/
  bounded : P.state.kspChan.length ≤ Configs.defaultKspChanSize
  /-- What the listener heard was taken from it. -/
  heard : γ.heard.Sublist γ.taken
  /-- What the broker was told of, and what it is yet to be told of, was heard. -/
  told : (γ.told : Multiset LBSInfo) + (couriers J r).held Courier.news P γ.courier ≤
    (γ.heard.filterMap Message.decode : Multiset LBSInfo)

variable {P P' : Pool (machine J r)} {e : Event (machine J r)} {γ : Feed}

theorem Courier.start_hands (f : Call) :
    (start f).carried = 0 ∧ (start f).owed = 0 ∧ (start f).news = 0 := by
  cases f with
  | client f =>
    have hstart : start (.client f) = if Call.isSend (.client f) then .outside else .aside := rfl
    rw [hstart]
    split <;> exact ⟨rfl, rfl, rfl⟩
  | _ => exact ⟨rfl, rfl, rfl⟩

theorem Courier.start_ne_outside {f : Call} (hf : f.isSend = false) : start f ≠ .outside := by
  cases f with
  | client f =>
    have hstart : start (.client f) = if Call.isSend (.client f) then .outside else .aside := rfl
    rw [hstart, hf]
    nofun
  | _ => nofun

/-- Nobody starts to send from outside. -/
theorem State.isSend_of_fork {q : Courier} {o : Op} {ch : Choice} {s s' : State} {x : o.Reply}
    {g : Call} (hok : q.Ok o) (h : exec o ch s = some (x, s', some g)) : g.isSend = false := by
  rcases exec_starts h with rfl | ⟨o, f, rfl, rfl⟩
  · exact hok.2
  · obtain ⟨g, hx, hg⟩ := exec_client h
    obtain ⟨g', rfl, hcall⟩ := Option.map_eq_some_iff.1 hg.symm
    obtain rfl := Call.client.inj hcall
    obtain ⟨m, l, i, rfl, rfl⟩ := World.exec_fork hx
    rfl

namespace Fed

theorem init (h₀ : P.threads = []) (hksp : P.state.kspChan = []) : Fed P .new := by
  have hheld {α : Type} [AddCommMonoid α] (hand : Courier → α) :
      (couriers J r).held hand P Feed.new.courier = 0 :=
    Contract.held_nil (K := couriers J r) hand _ h₀
  refine ⟨?_, ?_, ?_, ?_, ?_, ?_, .refl _, ?_⟩
  · intro t th p ht
    simp [h₀] at ht
  · rintro t c f ⟨p, hp⟩
    simp [h₀] at hp
  · rw [hheld]
    rfl
  · rw [hheld]
    rfl
  · rw [hksp]
    rfl
  · rw [hksp]
    exact Nat.zero_le _
  · rw [hheld]
    exact le_rfl

theorem inside_step (hF : Fed P γ) (hs : Pool.Step P e P') (hG : Undisturbed e) (t : Nat) (c : Unit)
    (f : Call) (hl : P'.Live t c f) : (couriers J r).track γ.courier P e t ≠ .outside := by
  refine hF.obeying.each (I := fun _ _ q ↦ q ≠ Courier.outside)
    (Q := fun _ _ q ↦ q ≠ Courier.outside) hs hF.inside ?_ ?_ ?_ t c f hl
  · exact fun _ _ _ _ _ _ h ↦ h
  · rintro t c f o ch x g rfl hl hok hx hI
    exact Courier.next_ne_outside hok hI x
  · intro c f hst
    refine Courier.start_ne_outside ?_
    cases e with
    | start d g =>
      obtain ⟨rfl, rfl⟩ := Prod.mk.inj (Option.some.inj hst)
      exact hG
    | op t d o ch x g =>
      obtain ⟨g, rfl, heq⟩ := Option.map_eq_some_iff.1 hst
      obtain ⟨rfl, rfl⟩ := Prod.mk.inj heq
      exact State.isSend_of_fork (hF.obeying.ok hs) hs.op_exec
    | _ => cases hst

/-- **An operation keeps the accounts.** -/
theorem step_op (hF : Fed P γ) {t : Nat} {c : Unit} {o : Op} {ch : Choice} {x : o.Reply}
    {f : Option Call} (hs : Pool.Step P (.op (M := machine J r) t c o ch x f) P') :
    Fed P' (γ.update P (.op t c o ch x f)) := by
  have hok : (γ.courier t).Ok o := hF.obeying.ok hs
  obtain ⟨g, hl⟩ := hs.op_live
  obtain ⟨hqueue, hbound⟩ := State.exec_kspQueue hs.op_exec
  refine ⟨hF.obeying.step hs, hF.inside_step hs trivial, ?_, ?_, ?_, hbound hF.bounded, ?_, ?_⟩
  · have h := Contract.total_op (fun _ f ↦ (Courier.start_hands f).1) hs hF.arrived
      (Courier.carried_next hok x)
    show ((γ.arrived ++ o.arrived x : List Message) : Multiset Message) = _
    rw [← Multiset.coe_add, h]
    show _ = ((γ.queued ++ o.queued x : List Message) : Multiset Message) +
      ((γ.dropped ++ o.dropped x : List Message) : Multiset Message) + _
    rw [← Multiset.coe_add, ← Multiset.coe_add, add_add_add_comm]
    rfl
  · have h := Contract.total_op (fun _ f ↦ (Courier.start_hands f).2.1) hs hF.dropped
      (Courier.owed_next hok x)
    show (γ.dropped ++ o.dropped x).length = _
    rw [List.length_append]
    exact h
  · show γ.queued ++ o.queued x = γ.taken ++ o.taken x ++ P'.state.kspChan
    rw [hF.queued, List.append_assoc, hqueue, List.append_assoc]
  · exact hF.heard.append (Op.heard_sublist x)
  · have h := Contract.bound_op (fun _ f ↦ (Courier.start_hands f).2.2) hs hF.told
      (Courier.news_next hok (hF.inside t c g hl) x)
    show ((γ.told ++ o.told x : List LBSInfo) : Multiset LBSInfo) + _ ≤
      ((γ.heard ++ o.heard x).filterMap Message.decode : List LBSInfo)
    rw [List.filterMap_append, ← Multiset.coe_add, ← Multiset.coe_add]
    exact h

/-- **Every step keeps the accounts.** -/
theorem step (hF : Fed P γ) (hG : Undisturbed e) (hs : Pool.Step P e P') :
    Fed P' (γ.update P e) := by
  by_cases hm : e.mover = none
  · have hheld {α : Type} [AddCommMonoid α] {hand : Courier → α}
        (h : ∀ f, hand (.start f) = 0) :
        (couriers J r).held hand P' ((couriers J r).track γ.courier P e) =
          (couriers J r).held hand P γ.courier :=
      Contract.held_of_mover (K := couriers J r) (fun _ f ↦ h f) hs hm
    have hksp : P'.state.kspChan = P.state.kspChan := by
      cases hs with
      | op => cases hm
      | env hv => exact kspChan_env hv
      | crash => exact hG.elim
      | _ => rfl
    have hupd : γ.update P e = { γ with courier := (couriers J r).track γ.courier P e } := by
      cases e with
      | op => cases hm
      | _ => rfl
    rw [hupd]
    refine ⟨hF.obeying.step hs, hF.inside_step hs hG, ?_, ?_, ?_, ?_, hF.heard, ?_⟩
    · rw [hheld fun f ↦ (Courier.start_hands f).1]
      exact hF.arrived
    · rw [hheld fun f ↦ (Courier.start_hands f).2.1]
      exact hF.dropped
    · rw [hksp]
      exact hF.queued
    · rw [hksp]
      exact hF.bounded
    · rw [hheld fun f ↦ (Courier.start_hands f).2.2]
      exact hF.told
  · cases e with
    | op t c o ch x f => exact hF.step_op hs
    | _ => exact absurd rfl hm

theorem of_run {P₀ : Pool (machine J r)} (h₀ : P₀.threads = []) (hksp : P₀.state.kspChan = [])
    (hrun : Pool.Run Feed.update (fun _ _ e ↦ Undisturbed e) (P₀, .new) P γ) : Fed P γ :=
  hrun.invariant (init h₀ hksp) fun _ _ _ _ hF hG hs ↦ hF.step hG hs

end Fed

/-- **Keyspace events are accounted for.**  In every run of a client, however its calls and
goroutines interleave: what arrived on its subscriptions was put into `kspChan`, was dropped, or
is in the hand of a fan-in; `kspChan` is a queue of bounded length; and each drop was reported, or
its fan-in is about to. -/
theorem events_accounted {P₀ : Pool (machine J r)} (h₀ : P₀.threads = [])
    (hksp : P₀.state.kspChan = [])
    (hrun : Pool.Run Feed.update (fun _ _ e ↦ Undisturbed e) (P₀, .new) P γ) :
    (γ.arrived : Multiset Message) = (γ.queued + γ.dropped : Multiset Message) +
        (couriers J r).held Courier.carried P γ.courier ∧
      γ.queued = γ.taken ++ P.state.kspChan ∧
      P.state.kspChan.length ≤ Configs.defaultKspChanSize ∧
      γ.dropped.length = γ.reported + (couriers J r).held Courier.owed P γ.courier :=
  have hF := Fed.of_run h₀ hksp hrun
  ⟨hF.arrived, hF.queued, hF.bounded, hF.dropped⟩

/-- **The user is told of an expired stream for an event that arrived, and once for each.** -/
theorem expired_told_once {P₀ : Pool (machine J r)} (h₀ : P₀.threads = [])
    (hksp : P₀.state.kspChan = [])
    (hrun : Pool.Run Feed.update (fun _ _ e ↦ Undisturbed e) (P₀, .new) P γ) :
    (γ.told : Multiset LBSInfo) ≤ (γ.arrived.filterMap Message.decode : Multiset LBSInfo) := by
  have hF := Fed.of_run h₀ hksp hrun
  have hheard : γ.heard.Sublist γ.queued := by
    rw [hF.queued]
    exact hF.heard.trans (List.sublist_append_left _ _)
  have hqueued : (γ.queued : Multiset Message) ≤ γ.arrived := by
    rw [hF.arrived, add_assoc]
    exact Multiset.le_add_right _ _
  calc (γ.told : Multiset LBSInfo)
      ≤ (γ.heard.filterMap Message.decode : List LBSInfo) :=
        (Multiset.le_add_right _ _).trans hF.told
    _ ≤ (γ.queued.filterMap Message.decode : List LBSInfo) :=
        Multiset.coe_le.2 (hheard.filterMap _).subperm
    _ ≤ (γ.arrived.filterMap Message.decode : List LBSInfo) := by
        simpa using Multiset.filterMap_le_filterMap Message.decode hqueued

end

namespace Demo

/-- The event of the lock of the entry `1-0` for `orders`. -/
def expiry : Message := ⟨"__keyspace@0__:orders<MUTEX_KEY_SEP>1-0", "expired"⟩

/-- After `Init` the event arrives at the fan-in, goroutine 1, which queues it; the listener,
goroutine 3, takes it and tells the broker, while the event arrives once more. -/
def relaying : List (Pool.Label shardMachine) :=
  [.start () .init] ++ opsOf 0 10 ++ [.op 1 ⟨.plain, "", some expiry, []⟩, .op 1 plainly] ++
    opsOf 3 5 ++ [.again 1, .op 1 ⟨.plain, "", some expiry, []⟩]

theorem relaying_isSome : (Pool.schedule Feed.update (fun _ _ e ↦ Undisturbed e) relaying
    (unstarted, .new)).isSome = true := by
  decide +kernel

/-- The user was told of the event, and another one is on its way. -/
def relayed : Pool shardMachine × Feed :=
  (Pool.schedule Feed.update (fun _ _ e ↦ Undisturbed e) relaying (unstarted, .new)).get
    relaying_isSome

end Demo

/-- Two events arrived, of which one is in the hand of the fan-in. -/
theorem events_accounted_relayed :
    Demo.relayed.2.arrived = [Demo.expiry, Demo.expiry] ∧
      Demo.relayed.2.queued = [Demo.expiry] ∧
      (Demo.relayed.2.arrived : Multiset Message) =
          (Demo.relayed.2.queued + Demo.relayed.2.dropped : Multiset Message) +
            (couriers Impl.Demo.service.json Demo.shard).held Courier.carried Demo.relayed.1
              Demo.relayed.2.courier ∧
        Demo.relayed.2.queued = Demo.relayed.2.taken ++ Demo.relayed.1.state.kspChan ∧
        Demo.relayed.1.state.kspChan.length ≤ Configs.defaultKspChanSize ∧
        Demo.relayed.2.dropped.length = Demo.relayed.2.reported +
          (couriers Impl.Demo.service.json Demo.shard).held Courier.owed Demo.relayed.1
            Demo.relayed.2.courier :=
  ⟨by decide +kernel, by decide +kernel,
    events_accounted rfl rfl (Pool.run_of_isSome Demo.relaying_isSome)⟩

/-- The user was told of one of them. -/
theorem expired_told_once_relayed :
    Demo.relayed.2.told = [⟨"orders", "1-0"⟩] ∧
      (Demo.relayed.2.told : Multiset LBSInfo) ≤
        (Demo.relayed.2.arrived.filterMap Message.decode : Multiset LBSInfo) :=
  ⟨by decide +kernel, expired_told_once rfl rfl (Pool.run_of_isSome Demo.relaying_isSome)⟩

end RedisStreamClient.Impl.Lifecycle
