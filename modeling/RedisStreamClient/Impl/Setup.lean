import RedisStreamClient.Impl.Lifecycle
import RedisStreamClient.Impl.Session

/-!
# What is not about the LBS

`Init` and `ReinitTopology`, their callbacks, the fan-in of keyspace notifications, the listener
and the loops of the broker leave the streams that a client has locked alone: they take no message
off the LBS, do not look at `streamLocks` but for the additional information of a stream, and
announce expired streams only.  Whatever is proved about the locked streams of a client need not
look at their code.

What `Done`, `cleanup`, the fan-in, the listener and the loops of the broker perform and return is
said here once (`done_within`, `cleanup_within` and so on).  A contract that does not care in which
order a call performs its operations follows from that.
-/

namespace RedisStreamClient.Impl.Lifecycle

open RedisStreamClient.Lib RedisStreamClient.Errs RedisStreamClient.Notifs

/-- The calls but `Done` and the extenders, which only a reader starts. -/
def Call.isSetup : Call → Bool
  | .client f => decide f.Public
  | .done | .cleanup => false
  | .init | .reinitTopology | .callback _ _ _ | .fanIn _ | .listenKsp => true

/-- The operations that are not about the streams that the client has locked. -/
def Op.isSetup : Op → Bool
  | .client (.record _) => true
  | .client (.broker (.select _ m)) => decide (m.type = .streamExpired)
  | .client (.broker _) => true
  | .go f => f.isSetup
  | .client _ | .kspLen | .kspReceive | .cancelLBS | .streamNames => false
  | _ => true

/-- Those of them that do not handle keyspace events. -/
def Op.isPlain : Op → Bool
  | .client (.record _) => true
  | .client _ | .nextMessage _ | .trySendKsp _ | .kspSelect | .additionalInfo _ => false
  | o => o.isSetup

theorem Op.isSetup_of_isPlain {o : Op} (h : o.isPlain = true) : o.isSetup = true := by
  cases o with
  | client o => cases o <;> first | rfl | cases h
  | _ => first | exact h | cases h

section

variable {A B : Type} {J : Json} {r : Config}

/-- A program of such operations. -/
def Setup (p : Prog sig A) : Prop := p.Only fun o : Op ↦ o.isSetup = true

/-- A program of such operations that does not handle keyspace events. -/
def Plain (p : Prog sig A) : Prop := p.Only fun o : Op ↦ o.isPlain = true

theorem Plain.ret (a : A) : Plain (.ret a) := trivial

theorem Plain.call {o : Op} {k : o.Reply → Prog sig A} (ho : o.isPlain = true)
    (h : ∀ x, Plain (k x)) : Plain (.call o k) := ⟨ho, h⟩

theorem Plain.bind {p : Prog sig A} {f : A → Prog sig B} (hp : Plain p) (hf : ∀ a, Plain (f a)) :
    Plain (p >>= f) := Prog.Only.bind hp hf

theorem plain_act {o : Op} (ho : o.isPlain = true) : Plain (Op.act o) := .call ho fun _ ↦ .ret _

theorem plain_metric (m : Metric) : Plain (Op.metric m) :=
  .call (o := .client (.record m)) rfl fun _ ↦ .ret _

theorem Plain.setup {p : Prog sig A} (hp : Plain p) : Setup p :=
  Prog.Only.mono (fun _ ho ↦ Op.isSetup_of_isPlain ho) hp

theorem plain_spawn (g : Nat) (f : Callback) (nodes : List String) : Plain (spawn g f nodes) := by
  induction nodes with
  | nil => exact .ret _
  | cons node nodes ih => exact (plain_act rfl).bind fun _ ↦ ih

theorem plain_forEachNode (f : Callback) : Plain (forEachNode f) := by
  refine .call (o := .forEach f) rfl ?_
  rintro (err | ⟨g, nodes⟩)
  · exact .ret _
  · refine (plain_spawn g f nodes).bind fun _ ↦ .call (o := .wait g) rfl ?_
    rintro ⟨_, _, _ | err, _, _, _⟩
    · exact .ret _
    · exact .ret _

theorem plain_enableKeyspaceNotifsOn (node : Option String) (reapply : Bool) :
    Plain (enableKeyspaceNotifsOn r node reapply) := by
  refine .call (o := .configGet node) rfl ?_
  rintro (err | v)
  · exact .ret _
  · show Plain (if _ then _ else _)
    split
    · exact .ret _
    · exact .call (o := .configSet node _) rfl fun _ ↦ .ret _

theorem plain_enableKeyspaceNotifsForExpiredEvents (reapply : Bool) :
    Plain (enableKeyspaceNotifsForExpiredEvents r reapply) := by
  rw [enableKeyspaceNotifsForExpiredEvents]
  split
  · split
    · exact .ret _
    · refine (plain_forEachNode _).bind ?_
      rintro (err | res)
      · exact .ret _
      · show Plain (if _ then _ else _)
        split
        · exact .ret _
        · exact .ret _
  · exact plain_enableKeyspaceNotifsOn none reapply

theorem plain_subscribeToExpiredEvents : Plain (subscribeToExpiredEvents r) := by
  rw [subscribeToExpiredEvents]
  split
  · rw [subscribeToExpiredEventsOSS]
    split
    · exact .ret _
    · exact (plain_forEachNode _).bind fun _ ↦ .ret _
  · refine .call (o := .pSubscribe none) rfl fun ps ↦ ?_
    exact (plain_act rfl).bind fun _ ↦ plain_act rfl

theorem plain_init : Plain (init r) := by
  have hstart : Plain (init.start r) := by
    refine (plain_act rfl).bind fun _ ↦ (plain_act rfl).bind fun _ ↦ ?_
    exact (plain_act rfl).bind fun _ ↦ .ret _
  rw [init]
  split
  · exact .ret _
  · refine (plain_enableKeyspaceNotifsForExpiredEvents false).bind ?_
    rintro (_ | err)
    · refine plain_subscribeToExpiredEvents.bind fun _ ↦ (plain_act rfl).bind fun _ ↦ ?_
      refine .call (o := .xGroupCreateMkStream) rfl ?_
      rintro (_ | err)
      · exact hstart
      · show Plain (if _ then _ else _)
        split
        · exact hstart
        · exact .ret _
    · exact .ret _

theorem plain_reinitTopology : Plain (reinitTopology r) := by
  have hfail (err : Err) : Plain (do
      Op.metric (.topologyReinit false)
      return some err) := (plain_metric _).bind fun _ ↦ .ret _
  rw [reinitTopology]
  split
  · exact .ret _
  split
  · exact hfail _
  refine Plain.bind ?_ ?_
  · refine (plain_forEachNode _).bind ?_
    rintro (err | res)
    · exact .ret _
    · exact .ret _
  · rintro (_ | err)
    · refine (plain_act rfl).bind fun _ ↦ (plain_enableKeyspaceNotifsForExpiredEvents true).bind ?_
      rintro (_ | err)
      · refine (plain_act rfl).bind fun _ ↦ plain_subscribeToExpiredEvents.bind fun _ ↦ ?_
        exact (plain_metric _).bind fun _ ↦ .ret _
      · exact hfail err
    · exact hfail err

theorem plain_callback (g : Nat) (node : String) (f : Callback) : Plain (callback r g node f) := by
  cases f with
  | report =>
    refine Plain.bind ?_ fun rep ↦ (plain_act rfl).bind fun _ ↦ .ret _
    refine .call (o := .clusterInfo node) rfl ?_
    rintro (err | info)
    · exact .ret _
    · refine .call (o := .clusterNodes node) rfl ?_
      rintro (err | nodes)
      · exact .ret _
      · exact .ret _
  | enable reapply =>
    have hcount (ok : Bool) : Plain (do
        Op.act (.countSetup g ok)
        Op.metric (.masterKeyspaceSetup ok)
        return (none : Option Err)) :=
      (plain_act rfl).bind fun _ ↦ (plain_metric _).bind fun _ ↦ .ret _
    refine (plain_enableKeyspaceNotifsOn _ reapply).bind ?_
    rintro (_ | err)
    · exact hcount true
    · show Plain (if _ then _ else _)
      split
      · exact .ret _
      · exact hcount false
  | subscribe =>
    refine .call (o := .pSubscribe _) rfl fun ps ↦ (plain_act rfl).bind fun _ ↦ ?_
    exact (plain_act rfl).bind fun _ ↦ .ret _

/-! ## What the calls perform -/

/-- The operation puts nothing into the input channel of the broker. -/
def forwards : Broker.Op → Bool
  | .select _ _ => false
  | _ => true

/-- The call is one of the loops of the broker. -/
def isLoop : Broker.Call → Bool
  | .run | .drain => true
  | _ => false

/-- The operations of `Done` before its `cleanup`. -/
def Op.finishes : Op → Bool
  | .client (.broker _) => false
  | .client _ | .streamNames => true
  | _ => false

/-- The operations of `cleanup` after its loop. -/
def Op.releases : Op → Bool
  | .client (.broker o) => forwards o
  | .cancelLBS | .getPubSub | .closePubSub _ | .ossCloseAll => true
  | _ => false

/-- The operations of `cleanup`. -/
def Op.cleansUp : Op → Bool
  | .kspLen | .kspReceive => true
  | o => o.releases

theorem Op.cleansUp_of_releases {o : Op} (h : o.releases = true) : o.cleansUp = true := by
  cases o <;> first | exact h | cases h

/-- The operations of a fan-in. -/
def Op.fansIn : Op → Bool
  | .nextMessage _ | .trySendKsp _ | .client (.record .kspNotificationDropped) => true
  | _ => false

/-- The operations of the listener. -/
def Op.listens : Op → Bool
  | .kspSelect | .additionalInfo _ | .client (.record (.kspNotification _))
  | .client (.broker .load) => true
  | .client (.broker (.select _ m)) => decide (m.type = .streamExpired)
  | _ => false

theorem Op.isSetup_of_fansIn {o : Op} (h : o.fansIn = true) : o.isSetup = true := by
  cases o with
  | client o => cases o <;> first | rfl | cases h
  | _ => first | rfl | cases h

theorem Op.isSetup_of_listens {o : Op} (h : o.listens = true) : o.isSetup = true := by
  cases o with
  | client o =>
    cases o with
    | broker b => cases b <;> first | exact h | cases h
    | _ => first | rfl | cases h
  | _ => first | rfl | cases h

/-- The loops of the broker, and `Close`, send nothing, and go round into such a loop. -/
theorem broker_within {f : Broker.Call} (hf : ∀ ctx m, f ≠ .send ctx m) :
    (Broker.body f).Within (fun o : Broker.Op ↦ forwards o = true)
      fun a ↦ ∀ g, a = .inr g → isLoop g = true := by
  have hloop {g : Broker.Call} (hg : isLoop g = true) :
      ∀ g', (.inr g : Broker.Res ⊕ Broker.Call) = .inr g' → isLoop g' = true := by
    rintro _ ⟨⟩
    exact hg
  have hdone : ∀ g', (.inl .done : Broker.Res ⊕ Broker.Call) = .inr g' → isLoop g' = true := by
    rintro _ ⟨⟩
  cases f with
  | send ctx m => exact absurd rfl (hf ctx m)
  | run =>
    refine ⟨rfl, ?_⟩
    rintro (_ | _ | m)
    · exact hloop rfl
    · exact hloop rfl
    · exact ⟨rfl, fun _ ↦ hloop rfl⟩
  | drain =>
    refine ⟨rfl, ?_⟩
    rintro ((_ | m) | _)
    · exact hloop rfl
    · exact ⟨rfl, fun _ ↦ hloop rfl⟩
    · exact ⟨rfl, fun _ ↦ ⟨rfl, fun _ ↦ hdone⟩⟩
  | close =>
    refine ⟨rfl, ?_⟩
    rintro (_ | _)
    · exact ⟨rfl, fun _ ↦ ⟨rfl, fun _ ↦ hdone⟩⟩
    · exact ⟨rfl, fun _ ↦ ⟨rfl, fun _ ↦ ⟨rfl, fun _ ↦ hdone⟩⟩⟩

/-- What a program of the LBS performs, it performs as a goroutine of the client. -/
theorem lift_within {P : Op → Prop} {R : A → Prop} {p : Prog Impl.sig A}
    (hp : p.Within (fun o : Impl.Op ↦ P (.client o)) R) : (Op.lift p).Within P R :=
  Prog.Within.embed (S := Impl.sig) (T := sig) (f := Op.client) (fun _ ho ↦ ho) hp

/-- The loops of the broker, and `Close`, as goroutines of the client. -/
theorem body_broker_within {P : Op → Prop} {f : Broker.Call} (hf : ∀ ctx m, f ≠ .send ctx m)
    (hP : ∀ o, forwards o = true → P (.client (.broker o))) :
    (body J r (.client (.broker f))).Within P fun a ↦ (∃ x, a = .inl (.client x)) ∨
      ∃ g, a = .inr (.client (.broker g)) ∧ isLoop g = true := by
  have himpl : (Impl.body J (fun _ ↦ r.client) 0 (.broker f)).Within
      (fun o : Impl.Op ↦ P (.client o))
      fun a ↦ (∃ x, a = .inl x) ∨ ∃ g, a = .inr (.broker g) ∧ isLoop g = true := by
    refine ((broker_within hf).embed hP).bind ?_
    rintro (x | g) hg
    · exact .inl ⟨_, rfl⟩
    · exact .inr ⟨g, rfl, hg g rfl⟩
  refine (lift_within himpl).bind ?_
  rintro _ (⟨x, rfl⟩ | ⟨g, rfl, hg⟩)
  · exact .inl ⟨x, rfl⟩
  · exact .inr ⟨g, rfl, hg⟩

/-- `DoneStream` has nothing to do with the broker. -/
theorem doneStream_within (name : String) :
    (Op.lift (doneStream r.client name)).Within (fun o : Op ↦ o.finishes = true)
      fun _ ↦ True := by
  have hreleased : (Op.lift (doneStream.released name)).Within
      (fun o : Op ↦ o.finishes = true) fun _ ↦ True :=
    ⟨rfl, fun _ ↦ ⟨rfl, fun _ ↦ trivial⟩⟩
  refine ⟨rfl, ?_⟩
  rintro (_ | info)
  · trivial
  refine ⟨rfl, ?_⟩
  rintro (err | n)
  · trivial
  refine ⟨rfl, ?_⟩
  rintro (err | n)
  · trivial
  refine ⟨rfl, ?_⟩
  rintro ⟨_, _ | err⟩
  · exact hreleased
  · cases err with
    | lockAlreadyExpired => exact hreleased
    | _ => exact ⟨rfl, fun _ ↦ trivial⟩

theorem done_within : (done r).Within (fun o : Op ↦ o.finishes = true) fun a ↦
    (∃ err, a = .inl (.done (some err))) ∨ a = .inr .cleanup := by
  have hstreams (names : List String) : (doneStreams r names).Within
      (fun o : Op ↦ o.finishes = true) fun _ ↦ True := by
    induction names with
    | nil => trivial
    | cons name names ih =>
      refine (doneStream_within name).bind ?_
      rintro (_ | err) -
      · exact ih
      · trivial
  refine ⟨rfl, fun names ↦ (hstreams names).bind ?_⟩
  rintro (_ | err) -
  · exact .inr rfl
  · exact .inl ⟨err, rfl⟩

theorem release_within : cleanup.release.Within (fun o : Op ↦ o.releases = true) fun a ↦
    ∃ err, a = .inl (.done err) := by
  have hclose : cleanup.closeAll.Within (fun o : Op ↦ o.releases = true) fun a ↦
      ∃ err, a = .inl (.done err) := ⟨rfl, fun _ ↦ ⟨none, rfl⟩⟩
  have hbroker : (Broker.close.embed (T := Impl.sig) .broker fun _ x ↦ x).Within
      (fun o : Impl.Op ↦ (Op.client o).releases = true) _ :=
    Prog.Within.embed (S := Broker.sig) (T := Impl.sig) (f := Impl.Op.broker) (fun _ ho ↦ ho)
      (broker_within (f := .close) (by simp))
  refine (lift_within hbroker).bind fun _ _ ↦ ?_
  refine ⟨rfl, fun _ ↦ ⟨rfl, ?_⟩⟩
  rintro (_ | ps)
  · exact hclose
  · refine ⟨rfl, ?_⟩
    rintro (_ | err)
    · exact hclose
    · exact ⟨_, rfl⟩

theorem cleanup_within : cleanup.Within (fun o : Op ↦ o.cleansUp = true) fun a ↦
    (∃ err, a = .inl (.done err)) ∨ a = .inr .cleanup := by
  refine ⟨rfl, fun (n : Nat) ↦ ?_⟩
  show (if 0 < n then cleanup.receive else cleanup.release).Within _ _
  split
  · exact ⟨rfl, fun _ ↦ .inr rfl⟩
  · exact release_within.mono (fun _ ho ↦ Op.cleansUp_of_releases ho) fun _ ha ↦ Or.inl ha

theorem fanIn_within (ps : Nat) : (fanIn ps).Within (fun o : Op ↦ o.fansIn = true) fun a ↦
    a = .inl .ended ∨ a = .inr (.fanIn ps) := by
  refine ⟨rfl, ?_⟩
  rintro (_ | msg)
  · exact .inl rfl
  · refine ⟨rfl, ?_⟩
    rintro (_ | _)
    · exact ⟨rfl, fun _ ↦ .inr rfl⟩
    · exact .inr rfl

theorem listenKsp_within : listenKsp.Within (fun o : Op ↦ o.listens = true) fun a ↦
    a = .inl .ended ∨ a = .inr .listenKsp := by
  refine ⟨rfl, ?_⟩
  rintro (_ | msg)
  · exact .inl rfl
  · show (listenKsp.relay msg).Within _ _
    rw [listenKsp.relay]
    split
    · exact .inr rfl
    · refine Prog.Within.bind (p := Op.metric _) (R := fun _ ↦ True) ⟨rfl, fun _ ↦ trivial⟩ ?_
      rintro _ -
      split
      · exact .inr rfl
      · refine ⟨rfl, fun _ ↦ ⟨rfl, ?_⟩⟩
        rintro (_ | _)
        · refine ⟨rfl, ?_⟩
          rintro (_ | _ | _) <;> exact .inr rfl
        · exact .inr rfl

theorem setup_fanIn (ps : Nat) : Setup (fanIn ps) :=
  (fanIn_within ps).only.mono fun _ ho ↦ Op.isSetup_of_fansIn ho

theorem setup_listenKsp : Setup listenKsp :=
  listenKsp_within.only.mono fun _ ho ↦ Op.isSetup_of_listens ho

/-- **The calls beside those of the LBS and `Done` leave the locked streams alone.** -/
theorem setup_body {f : Call} (hf : f.isSetup = true) (hne : ∀ g, f ≠ .client g) :
    Setup (body J r f) := by
  cases f with
  | client g => exact absurd rfl (hne g)
  | init => exact (plain_init.bind fun _ ↦ .ret _).setup
  | reinitTopology => exact (plain_reinitTopology.bind fun _ ↦ .ret _).setup
  | done => cases hf
  | cleanup => cases hf
  | callback g f node =>
    exact ((plain_callback g node f).bind fun _ ↦ (plain_act rfl).bind fun _ ↦ .ret _).setup
  | fanIn ps => exact setup_fanIn ps
  | listenKsp => exact setup_listenKsp

end

end RedisStreamClient.Impl.Lifecycle
