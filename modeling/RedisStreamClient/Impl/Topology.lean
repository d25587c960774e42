import RedisStreamClient.Impl.Setup

/-!
# Calls that follow the topology

What `Init`, `ReinitTopology` and `Done` may do to the subscriptions and to the masters'
configuration, and when, for a client of an OSS cluster.

A session says how far a goroutine has got.  Its `fan` is the call of `ForEachMaster` or
`ForEachShard` that it has under way, with the nodes whose callbacks it has still to start;
its `stage` is where it stands in the code.  `topology` is the contract: every goroutine goes
through its stages.
-/

namespace RedisStreamClient.Impl.Lifecycle

open RedisStreamClient.Lib RedisStreamClient.Errs RedisStreamClient.Notifs

/-! ## Sessions -/

/-- How far a callback has got. -/
inductive Pos
  | /-- Nothing was done. -/
    start
  | /-- `CONFIG GET` replied with a value. -/
    read (v : String)
  | /-- A subscription was opened, but not added. -/
    holding (ps : Nat)
  | /-- The callback has had its effect. -/
    finished
deriving DecidableEq, Repr

/-- Where a goroutine stands. -/
inductive Stage
  | /-- It does not follow the topology, or has returned. -/
    calm
  | /-- `Init`, before the masters are configured. -/
    starting
  | /-- `Init`, when the masters are configured. -/
    enabled
  | /-- `ReinitTopology`, before `closeAll`. -/
    checking
  | /-- `ReinitTopology`, after `closeAll`. -/
    cleared
  | /-- The masters were subscribed to. -/
    built
  | /-- `ForEachMaster` failed to run, instead of subscribing. -/
    unbuilt
  | /-- `ForEachMaster` or `ForEachShard` failed to run. -/
    refused
  | /-- `Done`, before `closeAll`. -/
    finishing
  | /-- `Done`, after `closeAll`. -/
    closed
  | /-- `Done` found `r.pubSub` set. -/
    odd
  | /-- A callback. -/
    task (g : Nat) (f : Callback) (node : String) (pos : Pos)
deriving DecidableEq, Repr

/-- What is known of a goroutine. -/
structure Session where
  /-- Where it stands. -/
  stage : Stage
  /-- The call of `ForEachMaster` or `ForEachShard` under way, and the nodes to come. -/
  fan : Option (Nat × Callback × List String)
deriving DecidableEq, Repr

/-- The operations that sessions do not care for. -/
def Op.isAside : Op → Bool
  | .forEach _ | .go _ | .wait _ | .callbackDone _ _ _ | .configGet _ | .configSet _ _
  | .pSubscribe _ | .ossAdd _ | .ossCloseAll | .setPubSub _ | .getPubSub | .closePubSub _ => false
  | _ => true

/-- The calls that may be started on the side. -/
def Call.isAside : Call → Bool
  | .client _ | .fanIn _ | .listenKsp => true
  | _ => false

namespace Stage

/-- A callback may be run on every master or node. -/
def MayRun : Stage → Callback → Prop
  | .starting, f => f = .enable false
  | .checking, f => f = .report ∨ f = .enable true
  | .enabled, f | .cleared, f => f = .subscribe
  | _, _ => False

/-- The callbacks are through. -/
def onWait : Stage → Callback → Stage
  | .starting, _ => .enabled
  | .enabled, _ | .cleared, _ => .built
  | stage, _ => stage

/-- `ForEachMaster` or `ForEachShard` failed to run. -/
def onFail : Callback → Stage
  | .subscribe => .unbuilt
  | _ => .refused

/-- `closeAll`. -/
def onCloseAll : Stage → Stage
  | .checking => .cleared
  | _ => .closed

/-- Change the position of a callback. -/
def setPos (pos : Pos) : Stage → Stage
  | .task g f node _ => .task g f node pos
  | stage => stage

end Stage

/-- An existing value is not to be overridden. -/
def Config.Refuses (r : Config) (reapply : Bool) (v : String) : Prop :=
  v ≠ "" ∧ ¬ r.forceOverrideConfig ∧ ¬ reapply

/-- A callback may return. -/
def Config.MayReturn (r : Config) : Callback → Pos → Prop
  | .report, _ => True
  | .enable reapply, pos => pos = .finished ∨ ∃ v, pos = .read v ∧ r.Refuses reapply v
  | .subscribe, pos => pos = .finished

namespace Session

/-- A session that begins. -/
def on (stage : Stage) : Session := ⟨stage, none⟩

/-- The operations that a session allows. -/
def Ok (r : Config) (q : Session) : Op → Prop
  | .forEach f => q.stage.MayRun f ∧ q.fan = none
  | .go (.callback g f node) => ∃ nodes, q.fan = some (g, f, node :: nodes)
  | .go f => f.isAside = true
  | .wait g => ∃ f, q.fan = some (g, f, [])
  | .callbackDone g node _ => ∃ f pos, q.stage = .task g f node pos ∧ r.MayReturn f pos
  | .configGet node => ∃ g b m, q.stage = .task g (.enable b) m .start ∧ node = some m
  | .configSet node v => ∃ g b m v₀, q.stage = .task g (.enable b) m (.read v₀) ∧
      ¬ r.Refuses b v₀ ∧ node = some m ∧ v = Configs.keyspacePatternForExpiredEvents
  | .pSubscribe node => ∃ g m, q.stage = .task g .subscribe m .start ∧ node = some m
  | .ossAdd ps => ∃ g m, q.stage = .task g .subscribe m (.holding ps)
  | .ossCloseAll => q.stage = .checking ∨ q.stage = .finishing ∨ q.stage = .odd
  | .setPubSub _ => False
  | .getPubSub => q.stage = .finishing
  | .closePubSub _ => q.stage = .odd
  | _ => True

/-- What an operation does to a session. -/
def next (q : Session) : (o : Op) → o.Reply → Session
  | .forEach f, reply =>
    match (show Except Err (Nat × List String) from reply) with
    | .ok (g, nodes) => { q with fan := some (g, f, nodes) }
    | .error _ => .on (Stage.onFail f)
  | .go (.callback _ _ _), _ => { q with fan := q.fan.map fun x ↦ (x.1, x.2.1, x.2.2.tail) }
  | .wait _, _ => .on (q.fan.elim q.stage fun x ↦ q.stage.onWait x.2.1)
  | .callbackDone _ _ _, _ => .on .calm
  | .configGet _, reply =>
    match (show Except Err String from reply) with
    | .ok v => .on (q.stage.setPos (.read v))
    | .error _ => .on (q.stage.setPos .finished)
  | .configSet _ _, _ => .on (q.stage.setPos .finished)
  | .pSubscribe _, ps => .on (q.stage.setPos (.holding (show Nat from ps)))
  | .ossAdd _, _ => .on (q.stage.setPos .finished)
  | .ossCloseAll, _ => .on q.stage.onCloseAll
  | .getPubSub, ps => if (show Option Nat from ps).isSome then .on .odd else q
  | _, _ => q

/-- Where a call begins. -/
def ofCall : Call → Session
  | .init => .on .starting
  | .reinitTopology => .on .checking
  | .done | .cleanup => .on .finishing
  | .callback g f node => .on (.task g f node .start)
  | .client _ | .fanIn _ | .listenKsp => .on .calm

/-- Where a call may return. -/
def Exit (q : Session) : Res ⊕ Call → Prop
  | .inl (.init none) | .inl (.reinitTopology none) => q = .on .built ∨ q = .on .unbuilt
  | .inl (.init (some e)) => (q = .on .starting ∧ e = .clusterClientRequired) ∨
      q = .on .enabled ∨ q = .on .refused ∨ q = .on .built ∨ q = .on .unbuilt
  | .inl (.reinitTopology (some _)) => q = .on .checking ∨ q = .on .refused
  | .inl (.done none) => q = .on .closed
  | .inl (.done (some _)) => q = .on .finishing ∨ q = .on .odd
  | .inl (.client _) | .inl .ended => q = .on .calm
  | .inr .cleanup => q = .on .finishing
  | .inr f => q = .on .calm ∧ f.isAside = true

end Session

/-- The monitor of sessions. -/
@[reducible] def topologyMonitor (r : Config) : Monitor sig Unit where
  State := Session
  Ok _ q o := q.Ok r o
  next _ q o x := q.next o x

section

variable {A B : Type} {J : Json} {r : Config} {q : Session} {Q : Session → A → Prop}

/-- From a session, a program keeps to the rules and ends as `Q` says. -/
def Follows (r : Config) (Q : Session → A → Prop) (p : Prog sig A) (q : Session) : Prop :=
  p.Obeys (topologyMonitor r) () Q q

theorem Follows.ret {a : A} (h : Q q a) : Follows r Q (.ret a) q := h

theorem Follows.call {o : Op} {k : o.Reply → Prog sig A} (ho : q.Ok r o)
    (h : ∀ x, Follows r Q (k x) (q.next o x)) : Follows r Q (.call o k) q := ⟨ho, h⟩

theorem Follows.bind {R : Session → B → Prop} {p : Prog sig A} {f : A → Prog sig B}
    (hp : Follows r Q p q) (hf : ∀ q' a, Q q' a → Follows r R (f a) q') :
    Follows r R (p >>= f) q := Prog.Obeys.bind hp hf

/-- An operation on the side. -/
theorem Op.ok_of_isAside {o : Op} (ho : o.isAside = true) :
    q.Ok r o ∧ ∀ x, q.next o x = q := by
  cases o <;> first | exact ⟨trivial, fun _ ↦ rfl⟩ | cases ho

/-- A program of such operations leaves the session alone. -/
theorem follows_of_isAside {p : Prog sig A} (hp : p.Only fun o : Op ↦ o.isAside = true) :
    Follows r (fun q' _ ↦ q' = q) p q :=
  Prog.Only.obeys hp fun _ ho ↦ Op.ok_of_isAside ho

theorem follows_lift (p : Prog Impl.sig A) : Follows r (fun q' _ ↦ q' = q) (Op.lift p) q :=
  follows_of_isAside (Prog.only_embed (S := Impl.sig) (T := sig) (f := Op.client) (fun _ ↦ rfl) p)

theorem follows_act {o : Op} (ho : o.isAside = true) :
    Follows r (fun q' _ ↦ q' = q) (Op.act o) q :=
  follows_of_isAside ⟨ho, fun _ ↦ trivial⟩

/-- A `go` statement on the side. -/
theorem follows_go {f : Call} (hf : f.isAside = true) :
    Follows r (fun q' _ ↦ q' = q) (Op.act (.go f)) q := by
  cases f with
  | client _ | fanIn _ | listenKsp => exact ⟨rfl, fun _ ↦ rfl⟩
  | _ => cases hf

theorem follows_spawn (stage : Stage) (g : Nat) (f : Callback) (nodes : List String) :
    Follows r (fun q' _ ↦ q' = ⟨stage, some (g, f, [])⟩) (spawn g f nodes)
      ⟨stage, some (g, f, nodes)⟩ := by
  induction nodes with
  | nil => exact .ret rfl
  | cons node nodes ih => exact .call (o := .go (.callback g f node)) ⟨nodes, rfl⟩ fun _ ↦ ih

/-- **`ForEachMaster` and `ForEachShard`.** -/
theorem follows_forEachNode (stage : Stage) {f : Callback} (hf : stage.MayRun f) :
    Follows r (fun q' res ↦ (q' = .on (Stage.onFail f) ∧ ∃ err, res = .error err) ∨
      q' = .on (stage.onWait f)) (forEachNode f) (.on stage) := by
  refine .call (o := .forEach f) ⟨hf, rfl⟩ ?_
  rintro (err | ⟨g, nodes⟩)
  · exact .ret (.inl ⟨rfl, err, rfl⟩)
  · refine (follows_spawn stage g f nodes).bind ?_
    rintro _ _ rfl
    refine .call (o := .wait g) ⟨f, rfl⟩ ?_
    rintro ⟨_, _, _ | err, _, _, _⟩
    · exact .ret (.inr rfl)
    · exact .ret (.inr rfl)

/-! ### The callbacks -/

/-- A callback comes to a point where it may return. -/
def Returns (r : Config) (g : Nat) (f : Callback) (node : String) (q : Session) : Prop :=
  ∃ pos, q = .on (.task g f node pos) ∧ r.MayReturn f pos

theorem follows_report (g : Nat) (node : String) :
    Follows r (fun q' _ ↦ Returns r g .report node q') (callback r g node .report)
      (.on (.task g .report node .start)) := by
  have hask : Follows r (fun q' _ ↦ q' = .on (.task g .report node .start)) (askNode node)
      (.on (.task g .report node .start)) := by
    refine .call (o := .clusterInfo node) trivial ?_
    rintro (err | info)
    · exact .ret rfl
    · refine .call (o := .clusterNodes node) trivial ?_
      rintro (err | nodes)
      · exact .ret rfl
      · exact .ret rfl
  refine hask.bind ?_
  rintro _ rep rfl
  refine (follows_act rfl).bind ?_
  rintro _ _ rfl
  exact .ret ⟨_, rfl, trivial⟩

theorem follows_enable (g : Nat) (node : String) (reapply : Bool) :
    Follows r (fun q' _ ↦ Returns r g (.enable reapply) node q')
      (callback r g node (.enable reapply)) (.on (.task g (.enable reapply) node .start)) := by
  have hset : Follows r (fun q' _ ↦ Returns r g (.enable reapply) node q')
      (enableKeyspaceNotifsOn r (some node) reapply)
      (.on (.task g (.enable reapply) node .start)) := by
    refine .call (o := .configGet (some node)) ⟨g, reapply, node, rfl, rfl⟩ ?_
    rintro (err | v)
    · exact .ret ⟨.finished, rfl, .inl rfl⟩
    · show Follows r _ (if v ≠ "" ∧ ¬ r.forceOverrideConfig ∧ ¬ reapply then _ else _) _
      split
      · next hv => exact .ret ⟨.read v, rfl, .inr ⟨v, rfl, hv⟩⟩
      · next hv =>
        refine .call (o := .configSet (some node) _) ⟨g, reapply, node, v, rfl, hv, rfl, rfl⟩ ?_
        exact fun _ ↦ .ret ⟨.finished, rfl, .inl rfl⟩
  have hcount (ok : Bool) {q : Session} (hq : Returns r g (.enable reapply) node q) :
      Follows r (fun q' _ ↦ Returns r g (.enable reapply) node q') (do
        Op.act (.countSetup g ok)
        Op.metric (.masterKeyspaceSetup ok)
        return (none : Option Err)) q := by
    refine (follows_act rfl).bind ?_
    rintro _ _ rfl
    refine (follows_lift _).bind ?_
    rintro _ _ rfl
    exact .ret hq
  refine hset.bind ?_
  rintro q (_ | err) hq
  · exact hcount true hq
  · show Follows r _ (if _ then _ else _) _
    split
    · exact .ret hq
    · exact hcount false hq

theorem follows_subscribe (g : Nat) (node : String) :
    Follows r (fun q' _ ↦ Returns r g .subscribe node q') (callback r g node .subscribe)
      (.on (.task g .subscribe node .start)) := by
  refine .call (o := .pSubscribe (some node)) ⟨g, node, rfl, rfl⟩ fun ps ↦ ?_
  refine .call (o := .ossAdd ps) ⟨g, node, rfl⟩ fun _ ↦ ?_
  refine (follows_go rfl).bind ?_
  rintro _ _ rfl
  exact .ret ⟨.finished, rfl, rfl⟩

theorem follows_callback (g : Nat) (f : Callback) (node : String) :
    Follows r (fun q' _ ↦ Returns r g f node q') (callback r g node f)
      (.on (.task g f node .start)) := by
  cases f with
  | report => exact follows_report g node
  | enable reapply => exact follows_enable g node reapply
  | subscribe => exact follows_subscribe g node

/-! ### The calls -/

section Oss

variable (hoss : r.clusterMode = .oss)
include hoss

/-- The masters are configured, from a stage that may do it. -/
theorem follows_enableKeyspaceNotifs (stage : Stage) (reapply : Bool)
    (hf : stage.MayRun (.enable reapply)) (hc : r.isClusterClient = true) :
    Follows r (fun q' err ↦ (q' = .on .refused ∧ ∃ e, err = some e) ∨
      q' = .on (stage.onWait (.enable reapply)))
      (enableKeyspaceNotifsForExpiredEvents r reapply) (.on stage) := by
  rw [enableKeyspaceNotifsForExpiredEvents, if_pos hoss, if_neg (by simp [hc])]
  refine (follows_forEachNode stage hf).bind ?_
  rintro q (err | res) hq
  · exact .ret (hq.imp (fun h ↦ ⟨h.1, err, rfl⟩) id)
  · obtain rfl : q = .on (stage.onWait (.enable reapply)) := by
      refine hq.resolve_left ?_
      rintro ⟨-, err, h⟩
      cases h
    show Follows r _ (if _ then _ else _) _
    split
    · exact .ret (.inr rfl)
    · exact .ret (.inr rfl)

/-- The masters are subscribed to. -/
theorem follows_subscribeToExpiredEvents (stage : Stage) (hf : stage.MayRun .subscribe)
    (hbuilt : stage.onWait .subscribe = .built) (hc : r.isClusterClient = true) :
    Follows r (fun q' _ ↦ q' = .on .built ∨ q' = .on .unbuilt) (subscribeToExpiredEvents r)
      (.on stage) := by
  rw [subscribeToExpiredEvents, if_pos hoss, subscribeToExpiredEventsOSS, if_neg (by simp [hc])]
  refine (follows_forEachNode stage hf).bind ?_
  rintro q res (⟨rfl, -⟩ | rfl)
  · exact .ret (.inr rfl)
  · exact .ret (.inl (by rw [hbuilt]))

theorem follows_init :
    Follows r (fun q e ↦ q.Exit (.inl (.init e))) (init r) (.on .starting) := by
  have hstart {q : Session} (hq : q = .on .built ∨ q = .on .unbuilt) :
      Follows r (fun q e ↦ q.Exit (.inl (.init e))) (init.start r) q := by
    refine (follows_go rfl).bind ?_
    rintro _ _ rfl
    refine (follows_go rfl).bind ?_
    rintro _ _ rfl
    refine (follows_go rfl).bind ?_
    rintro _ _ rfl
    exact .ret hq
  rw [init]
  split
  · exact .ret (.inl ⟨rfl, rfl⟩)
  next hc =>
  have hcluster : r.isClusterClient = true := by
    by_contra h
    exact hc ⟨hoss, h⟩
  refine (follows_enableKeyspaceNotifs hoss .starting false rfl hcluster).bind ?_
  rintro q (_ | e) hq
  · obtain rfl : q = .on .enabled := by
      refine hq.resolve_left ?_
      rintro ⟨-, e, h⟩
      cases h
    refine (follows_subscribeToExpiredEvents hoss .enabled rfl rfl hcluster).bind ?_
    rintro q _ hq
    refine (follows_act rfl).bind ?_
    rintro _ _ rfl
    refine .call (o := .xGroupCreateMkStream) trivial ?_
    rintro (_ | err)
    · exact hstart hq
    · show Follows r _ (if _ then _ else _) _
      split
      · exact hstart hq
      · refine .ret (.inr (.inr (.inr hq)))
  · rcases hq with ⟨rfl, -⟩ | rfl
    · exact .ret (.inr (.inr (.inl rfl)))
    · exact .ret (.inr (.inl rfl))

theorem follows_reinitTopology :
    Follows r (fun q e ↦ q.Exit (.inl (.reinitTopology e))) (reinitTopology r) (.on .checking) := by
  have hfail (err : Err) {q : Session} (hq : q = .on .checking ∨ q = .on .refused) :
      Follows r (fun q e ↦ q.Exit (.inl (.reinitTopology e))) (do
        Op.metric (.topologyReinit false)
        return some err) q := by
    refine (follows_lift _).bind ?_
    rintro _ _ rfl
    exact .ret hq
  rw [reinitTopology, if_neg (by simp [hoss])]
  split
  · exact hfail _ (.inl rfl)
  next hc =>
  have hcluster : r.isClusterClient = true := by simpa using hc
  have hsettled : Follows r (fun q' err ↦ (q' = .on .refused ∧ ∃ e, err = some e) ∨
      q' = .on .checking) ensureClusterSettled (.on .checking) := by
    refine (follows_forEachNode .checking (.inl rfl)).bind ?_
    rintro q (err | res) hq
    · exact .ret (hq.imp (fun h ↦ ⟨h.1, _, rfl⟩) id)
    · refine .ret (.inr (hq.resolve_left ?_))
      rintro ⟨-, err, h⟩
      cases h
  refine hsettled.bind ?_
  rintro q (_ | err) hq
  · obtain rfl : q = .on .checking := by
      refine hq.resolve_left ?_
      rintro ⟨-, e, h⟩
      cases h
    refine (follows_act rfl).bind ?_
    rintro _ _ rfl
    refine (follows_enableKeyspaceNotifs hoss .checking true (.inr rfl) hcluster).bind ?_
    rintro q (_ | err) hq
    · obtain rfl : q = .on .checking := by
        refine hq.resolve_left ?_
        rintro ⟨-, e, h⟩
        cases h
      refine .call (o := .ossCloseAll) (.inl rfl) fun _ ↦ ?_
      refine (follows_subscribeToExpiredEvents hoss .cleared rfl rfl hcluster).bind ?_
      rintro q _ hq
      refine (follows_lift _).bind ?_
      rintro _ _ rfl
      exact .ret hq
    · refine hfail err (hq.symm.imp id And.left)
  · refine hfail err (hq.symm.imp id And.left)

end Oss

/-- A call that does nothing a session cares for leaves its session alone. -/
theorem follows_aside {p : Prog sig (Res ⊕ Call)} {P : Op → Prop} {R : Res ⊕ Call → Prop}
    (hp : p.Within P R) (hP : ∀ o, P o → o.isAside = true) (hR : ∀ a, R a → q.Exit a) :
    Follows r (fun q a ↦ q.Exit a) p q :=
  hp.obeys (fun o ho ↦ Op.ok_of_isAside (hP o ho)) hR

theorem follows_done :
    Follows r (fun q a ↦ q.Exit a) (done r) (.on .finishing) := by
  refine follows_aside done_within (fun o ho ↦ by cases o <;> first | rfl | cases ho) ?_
  rintro _ (⟨err, rfl⟩ | rfl)
  · exact .inl rfl
  · exact (rfl : Session.on .finishing = .on .finishing)

theorem follows_cleanup : Follows r (fun q a ↦ q.Exit a) cleanup (.on .finishing) := by
  have hclose : Follows r (fun q a ↦ q.Exit a) cleanup.closeAll (.on .finishing) :=
    .call (o := .ossCloseAll) (.inr (.inl rfl)) fun _ ↦ .ret rfl
  have hodd : Follows r (fun q a ↦ q.Exit a) cleanup.closeAll (.on .odd) :=
    .call (o := .ossCloseAll) (.inr (.inr rfl)) fun _ ↦ .ret rfl
  refine .call (o := .kspLen) trivial fun n ↦ ?_
  show Follows r _ (if 0 < (show Nat from n) then _ else _) _
  split
  · refine (follows_act rfl).bind ?_
    rintro _ _ rfl
    exact .ret rfl
  · refine (follows_lift _).bind ?_
    rintro _ _ rfl
    refine (follows_act rfl).bind ?_
    rintro _ _ rfl
    refine .call (o := .getPubSub) rfl ?_
    rintro (_ | ps)
    · exact hclose
    · refine .call (o := .closePubSub ps) rfl ?_
      rintro (_ | err)
      · exact hodd
      · exact .ret (.inr rfl)

theorem follows_fanIn (ps : Nat) : Follows r (fun q a ↦ q.Exit a) (fanIn ps) (.on .calm) := by
  refine follows_aside (fanIn_within ps) (fun o ho ↦ by cases o <;> first | rfl | cases ho) ?_
  rintro _ (rfl | rfl)
  · exact (rfl : Session.on .calm = .on .calm)
  · exact ⟨rfl, rfl⟩

theorem follows_listenKsp : Follows r (fun q a ↦ q.Exit a) listenKsp (.on .calm) := by
  refine follows_aside listenKsp_within (fun o ho ↦ by cases o <;> first | rfl | cases ho) ?_
  rintro _ (rfl | rfl)
  · exact (rfl : Session.on .calm = .on .calm)
  · exact ⟨rfl, rfl⟩

/-- Every call follows the rules. -/
theorem follows_body (hoss : r.clusterMode = .oss) (f : Call) :
    Follows r (fun q a ↦ q.Exit a) (body J r f) (.ofCall f) := by
  cases f with
  | client f =>
    refine (follows_lift _).bind ?_
    rintro _ (a | f) rfl
    · exact .ret rfl
    · exact .ret ⟨rfl, rfl⟩
  | init => exact (follows_init hoss).bind fun q e h ↦ .ret h
  | reinitTopology => exact (follows_reinitTopology hoss).bind fun q e h ↦ .ret h
  | done => exact follows_done
  | cleanup => exact follows_cleanup
  | callback g f node =>
    refine (follows_callback g f node).bind ?_
    rintro _ err ⟨pos, rfl, hpos⟩
    exact .call (o := .callbackDone g node err) ⟨f, pos, rfl, hpos⟩ fun _ ↦ .ret rfl
  | fanIn ps => exact follows_fanIn ps
  | listenKsp => exact follows_listenKsp

/-- Loops go on following the rules. -/
theorem follows_again (hoss : r.clusterMode = .oss) (f : Call) (hq : q.Exit (.inr f)) :
    Follows r (fun q a ↦ q.Exit a) (body J r f) q := by
  have hcalm (h : q = .on .calm ∧ f.isAside = true) (hf : Session.ofCall f = .on .calm) :
      Follows r (fun q a ↦ q.Exit a) (body J r f) q := by
    rw [h.1, ← hf]
    exact follows_body hoss f
  cases f with
  | cleanup =>
    obtain rfl : q = .on .finishing := hq
    exact follows_body hoss .cleanup
  | client _ | fanIn _ | listenKsp => exact hcalm hq rfl
  | init | reinitTopology | done | callback _ _ _ => cases hq.2

end

/-- **The contract of a client of an OSS cluster.** -/
@[reducible] def topology (J : Json) (r : Config) (hoss : r.clusterMode = .oss) :
    Contract (machine J r) where
  toMonitor := topologyMonitor r
  init _ f := .ofCall f
  Exit _ q a := q.Exit a
  body_obeys _ f := follows_body hoss f
  again_obeys _ _ f hq := follows_again hoss f hq

/-! ## What the operations do to the calls of `ForEachMaster` -/

/-- The calls of `ForEachMaster` and `ForEachShard`, by their callbacks and the nodes on which
those have not returned. -/
def State.fans (s : State) : List (Callback × List String) :=
  s.forEachs.map fun x ↦ (x.callback, x.outstanding)

/-- The operations on `kspChan`. -/
def Op.isKsp : Op → Bool
  | .trySendKsp _ | .kspSelect | .kspReceive => true
  | _ => false

/-- The operations that change the calls of `ForEachMaster`. -/
def Op.isFan : Op → Bool
  | .forEach _ | .callbackDone _ _ _ => true
  | _ => false

namespace State

variable {s s' : State} {ch : Choice} {h : Option Call} {f : Callback}

theorem exec_forEach {x : Except Err (Nat × List String)}
    (hx : exec (.forEach f) ch s = some (x, s', h)) :
    (ch.base.fault = .none ∧ x = .ok (s.fans.length, s.nodesFor f) ∧
        s' = { s with forEachs := s.forEachs ++ [⟨f, s.nodesFor f, none, 0, 0, []⟩] }) ∨
      (ch.base.fault ≠ .none ∧ s' = s ∧ ∃ e, x = .error e) := by
  rw [exec] at hx
  split at hx
  · next hfault =>
    obtain ⟨rfl, rfl, -⟩ := some_inj hx
    exact .inl ⟨hfault, by rw [fans, List.length_map], rfl⟩
  · next e hfault =>
    obtain ⟨rfl, rfl, -⟩ := some_inj hx
    exact .inr ⟨by simp [hfault], rfl, e, rfl⟩
  · next e hfault =>
    obtain ⟨rfl, rfl, -⟩ := some_inj hx
    exact .inr ⟨by simp [hfault], rfl, e, rfl⟩

/-- An element of a list with one more is an old one or the new one. -/
theorem getElem?_concat_cases {α : Type} {l : List α} {a b : α} {i : Nat}
    (h : (l ++ [a])[i]? = some b) : l[i]? = some b ∨ (i = l.length ∧ b = a) := by
  rcases lt_or_ge i l.length with hlt | hge
  · rw [List.getElem?_append_left hlt] at h
    exact .inl h
  · rw [List.getElem?_append_right hge, List.getElem?_singleton] at h
    split at h
    · next h0 => exact .inr ⟨by omega, (Option.some.inj h).symm⟩
    · cases h

theorem fans_modifyForEach (g : Nat) (u : ForEach → ForEach) (v : Callback × List String →
    Callback × List String) (huv : ∀ x, ((u x).callback, (u x).outstanding) =
      v (x.callback, x.outstanding)) : (s.modifyForEach g u).fans = s.fans.modify g v := by
  refine List.ext_getElem? fun j ↦ ?_
  rw [fans, fans, modifyForEach, List.getElem?_map, List.getElem?_modify, List.getElem?_modify,
    List.getElem?_map]
  cases s.forEachs[j]? with
  | none => rfl
  | some x =>
    by_cases hj : g = j
    · simp [hj, huv]
    · simp [hj]

theorem exec_callbackDone {g : Nat} {node : String} {err : Option Err} {x : Unit}
    (hx : exec (.callbackDone g node err) ch s = some (x, s', h)) :
    s'.fans = s.fans.modify g fun x ↦ (x.1, x.2.erase node) := by
  obtain ⟨-, rfl, -⟩ := some_inj hx
  exact fans_modifyForEach _ _ _ fun _ ↦ rfl

/-- Callbacks that have all returned. -/
theorem exec_wait {g : Nat} {x : ForEach} (hx : exec (.wait g) ch s = some (x, s', h)) :
    s' = s ∧ s.fans[g]? = some (x.callback, []) := by
  obtain ⟨y, hy, hx⟩ := Option.bind_eq_some_iff.1 hx
  split at hx
  · next hnil =>
    obtain ⟨rfl, rfl, -⟩ := some_inj hx
    exact ⟨rfl, by rw [fans, List.getElem?_map, hy, Option.map_some, hnil]⟩
  · cases hx

/-- The operations on `kspChan` change nothing else. -/
theorem exec_ksp {o : Op} {x : o.Reply} (ho : o.isKsp = true)
    (hx : exec o ch s = some (x, s', h)) : h = none ∧ ∃ ms, s' = { s with kspChan := ms } := by
  have hres {y : o.Reply} {ms : List Message}
      (hx : some (y, { s with kspChan := ms }, none) = some (x, s', h)) :
      h = none ∧ ∃ ms, s' = { s with kspChan := ms } :=
    ⟨(some_inj hx).2.2.symm, ms, (some_inj hx).2.1.symm⟩
  cases o with
  | trySendKsp m =>
    rw [exec] at hx
    split at hx
    · exact hres hx
    · exact hres hx
  | kspSelect =>
    rw [exec] at hx
    split at hx
    · split at hx
      · exact hres hx
      · cases hx
    · split at hx
      · exact hres hx
      · cases hx
  | kspReceive =>
    rw [exec] at hx
    split at hx
    · exact hres hx
    · cases hx
  | _ => cases ho

/-- Other operations leave them alone. -/
theorem exec_fans {o : Op} {x : o.Reply} (hx : exec o ch s = some (x, s', h))
    (ho : o.isFan = false) : s'.fans = s.fans := by
  by_cases hto : o.Touches
  · have hmodify (u : ForEach → ForEach) (g : Nat) (hs : s' = s.modifyForEach g u)
        (hu : ∀ y, ((u y).callback, (u y).outstanding) = (y.callback, y.outstanding)) :
        s'.fans = s.fans := by
      rw [hs, fans_modifyForEach g u id hu, List.modify_id]
    cases o with
    | appendReport g rep =>
      obtain ⟨-, rfl, -⟩ := some_inj hx
      exact hmodify _ g rfl fun _ ↦ rfl
    | countSetup g ok =>
      obtain ⟨-, rfl, -⟩ := some_inj hx
      exact hmodify _ g rfl fun _ ↦ by cases ok <;> rfl
    | pSubscribe _ | ossAdd _ | ossCloseAll | setPubSub _ | closePubSub _ =>
      obtain ⟨-, rfl, -⟩ := some_inj hx
      rfl
    | trySendKsp _ | kspSelect | kspReceive =>
      obtain ⟨-, ms, rfl⟩ := exec_ksp rfl hx
      rfl
    | forEach _ | callbackDone _ _ _ => cases ho
    | _ => exact hto.elim
  · rw [fans, fans, (exec_same hx hto).forEachs]

/-- What is started without a `go` statement is a goroutine of the LBS. -/
theorem exec_starts {o : Op} {x : o.Reply} {f : Call} (hx : exec o ch s = some (x, s', some f)) :
    o = .go f ∨ ∃ o' f', o = .client o' ∧ f = .client f' := by
  cases o with
  | client o =>
    obtain ⟨p, -, hp⟩ := Option.map_eq_some_iff.1 hx
    obtain ⟨-, hp⟩ := Prod.mk.inj hp
    obtain ⟨-, hp⟩ := Prod.mk.inj hp
    obtain ⟨f', -, rfl⟩ := Option.map_eq_some_iff.1 hp
    exact .inr ⟨o, f', rfl, rfl⟩
  | go f' =>
    obtain rfl := Option.some.inj (some_inj hx).2.2
    exact .inl rfl
  | wait g =>
    obtain ⟨y, -, hy⟩ := Option.bind_eq_some_iff.1 hx
    split at hy
    · cases (some_inj hy).2.2
    · cases hy
  | trySendKsp _ | kspSelect | kspReceive => cases (exec_ksp rfl hx).1
  | forEach _ | configSet _ _ =>
    rw [exec] at hx
    split at hx <;> cases (some_inj hx).2.2
  | nextMessage ps =>
    rw [exec] at hx
    split at hx
    · cases (some_inj hx).2.2
    · split at hx
      · cases hx
      · cases (some_inj hx).2.2
  | cancelLBS | streamNames =>
    rw [exec] at hx
    split at hx
    · cases (some_inj hx).2.2
    · cases hx
  | _ => cases (some_inj hx).2.2

/-- Other operations start nothing. -/
theorem exec_eq_none {o : Op} {x : o.Reply} (hx : exec o ch s = some (x, s', h))
    (hgo : ∀ f, o ≠ .go f) (hclient : ∀ o', o ≠ .client o') : h = none := by
  cases h with
  | none => rfl
  | some f =>
    rcases exec_starts hx with heq | ⟨o', f', heq, -⟩
    · exact absurd heq (hgo f)
    · exact absurd heq (hclient o')

/-- Only `CONFIG SET` changes the configuration of the nodes, and nothing the topology. -/
theorem exec_cluster {o : Op} {x : o.Reply} (hx : exec o ch s = some (x, s', h)) :
    s'.masters = s.masters ∧
      (s'.notifyKeyspaceEvents = s.notifyKeyspaceEvents ∨ ∃ node v, o = .configSet node v) := by
  cases o with
  | client o =>
    obtain ⟨p, -, hp⟩ := Option.map_eq_some_iff.1 hx
    obtain ⟨-, hp⟩ := Prod.mk.inj hp
    obtain ⟨rfl, -⟩ := Prod.mk.inj hp
    exact ⟨rfl, .inl rfl⟩
  | forEach f =>
    obtain ⟨-, -, rfl⟩ | ⟨-, rfl, -⟩ := exec_forEach hx <;> exact ⟨rfl, .inl rfl⟩
  | wait g =>
    obtain ⟨rfl, -⟩ := exec_wait hx
    exact ⟨rfl, .inl rfl⟩
  | configSet node v =>
    refine ⟨?_, .inr ⟨node, v, rfl⟩⟩
    rw [exec] at hx
    split at hx <;>
    · obtain ⟨-, rfl, -⟩ := some_inj hx
      rfl
  | trySendKsp _ | kspSelect | kspReceive =>
    obtain ⟨-, ms, rfl⟩ := exec_ksp rfl hx
    exact ⟨rfl, .inl rfl⟩
  | nextMessage ps =>
    rw [exec] at hx
    split at hx
    · obtain ⟨-, rfl, -⟩ := some_inj hx
      exact ⟨rfl, .inl rfl⟩
    · split at hx
      · cases hx
      · obtain ⟨-, rfl, -⟩ := some_inj hx
        exact ⟨rfl, .inl rfl⟩
  | cancelLBS | streamNames =>
    rw [exec] at hx
    split at hx
    · obtain ⟨-, rfl, -⟩ := some_inj hx
      exact ⟨rfl, .inl rfl⟩
    · cases hx
  | _ =>
    obtain ⟨-, rfl, -⟩ := some_inj hx
    exact ⟨rfl, .inl rfl⟩

end State

end RedisStreamClient.Impl.Lifecycle
