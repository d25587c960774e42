import RedisStreamClient.Impl.Custody
import RedisStreamClient.Impl.Drain
import RedisStreamClient.Impl.HalfDone
import RedisStreamClient.Impl.Topology
import RedisStreamClient.Impl.Trace
import RedisStreamClient.Impl.Works

/-!
# What `Done` leaves behind

`Done` finishes the streams that `streamLocks` names, so it can only acknowledge entries whose
record is still there when it is called.  A record is keyed by the name of its data stream: it is
lost if another entry of the same stream is recorded over it, or if the extender of an earlier
entry of that stream, on its way out, pops it.

Where neither happens, every entry that the client has taken and not acknowledged is recorded, or
held by a `DoneStream` (`Placed`).  So nothing is left when `Done` has returned.  Neither can happen
where a stream is recorded only when it is not recorded and nobody looks after an earlier record of
it any more (`Kept`).
-/

namespace RedisStreamClient.Impl.Lifecycle

open RedisStreamClient.Lib RedisStreamClient.Errs RedisStreamClient.Notifs
open RedisStreamClient.Redis

/-! ## Runs -/

/-- The call is `Done`. -/
def Call.isDone : Call → Bool
  | .done => true
  | _ => false

theorem Call.eq_done {f : Call} (h : f.isDone = true) : f = .done := by
  cases f <;> first | rfl | cases h

/-- The call finishes streams: it is `Done` or `DoneStream`. -/
def Call.finishes : Call → Bool
  | .done | .client (.doneStream _) => true
  | _ => false

/-- The record that an operation makes, with the name of its stream. -/
def Op.records : Op → Option (String × StreamLocksInfo)
  | .client (.putStreamLocks name info) => some (name, info)
  | _ => none

/-- The stream whose record an operation pops. -/
def Op.pops : Op → Option String
  | .client (.popStreamLocksInfo name) => some name
  | _ => none

theorem Op.eq_of_pops {o : Op} {name : String} (h : o.pops = some name) :
    o = .client (.popStreamLocksInfo name) := by
  unfold Op.pops at h
  split at h
  · rw [Option.some.inj h]
  · cases h

/-- The LBS entry is in the pending list of the client's group. -/
def StillPending (r : Client) (s : Server) (l : LBSInfo) : Prop :=
  ∃ i, StreamID.ofText? l.idInLBS = some i ∧ i ∈ s.groups r.lbsName r.lbsGroupName

/-- What may happen to Redis while no lock of the client expires: the keys of the client stay,
its group only moves on, and what was handed out does not become pending again. -/
structure Lawful (r : Client) (s s' : Server) : Prop where
  /-- No lock expires. -/
  keys : ∀ k, s.keys k = some r.consumerID → s'.keys k = some r.consumerID
  /-- The group moves on. -/
  top : (s.groups r.lbsName r.lbsGroupName).top ≤ (s'.groups r.lbsName r.lbsGroupName).top
  /-- An entry becomes pending once. -/
  pending : ∀ i ≤ (s.groups r.lbsName r.lbsGroupName).top,
    i ∈ s'.groups r.lbsName r.lbsGroupName → i ∈ s.groups r.lbsName r.lbsGroupName

/-- What is kept of a run. -/
structure Tally where
  /-- What the goroutines work at. -/
  work : Nat → Work
  /-- The entries that were locked and recorded. -/
  taken : List LBSInfo
  /-- The entries whose `StreamAdded` notification was accepted. -/
  announced : List LBSInfo

section

variable {J : Json} {r : Config}

/-- The entry that an event records. -/
def Tally.takes : Event (machine J r) → Option LBSInfo
  | .op _ _ o _ _ _ => o.records.map fun p ↦ p.2.lbsInfo
  | .again _ | .start _ _ | .env _ | .crash _ => none

/-- The entry that an event announces. -/
def Tally.announces : Event (machine J r) → Option LBSInfo
  | .op _ _ (.client (.broker (.select _ m))) _ x _ =>
    if (show Broker.SendCase from x) = .sent ∧ m.type = .streamAdded then some m.payload else none
  | _ => none

/-- The tally after an event. -/
def Tally.update (γ : Tally) (P : Pool (machine J r)) (e : Event (machine J r)) : Tally where
  work := (works J r).track γ.work P e
  taken := γ.taken ++ (takes e).toList
  announced := γ.announced ++ (announces e).toList

/-- The tally of a client that was just created. -/
def Tally.new : Tally := ⟨fun _ ↦ .aside, [], []⟩

/-- **An ordinary event.**  Commands succeed and no lock expires; the client does not crash and
its context is not cancelled from outside; once `Done` is called, no message is recorded. -/
def Ordinary (P : Pool (machine J r)) : Event (machine J r) → Prop
  | .op _ _ o ch _ _ => ch.base.fault = .none ∧
    (o.records.isSome = true → ∀ th ∈ P.threads, th.call.isDone = false)
  | .start _ f => f.isDone = true ∨ f.isSetup = true
  | .env (.redis s) => Lawful r.client P.state.world.server s
  | .env .cancel | .crash _ => False
  | .env (.topology _ _) | .again _ => True

/-- **A stream is recorded anew**: it is not recorded, and nobody looks after an earlier record of
it. -/
def RecordsAnew (γ : Tally) (P : Pool (machine J r)) : Event (machine J r) → Prop
  | .op _ _ o _ _ _ => ∀ p ∈ o.records,
    (P.state.world.clients 0).streamLocks.lookup p.1 = none ∧
      ∀ t < P.threads.length, P.isOver t = false →
        ∀ info ∈ (γ.work t).on Impl.Session.tends, info.lbsInfo.dataStreamName ≠ p.1
  | .again _ | .start _ _ | .env _ | .crash _ => True

/-- **Every record keeps its place**: a stream is recorded only when it is not recorded, and an
extender that leaves pops no record but its own. -/
def KeepsRecords (γ : Tally) (P : Pool (machine J r)) : Event (machine J r) → Prop
  | .op t _ o _ _ _ =>
    (∀ p ∈ o.records, (P.state.world.clients 0).streamLocks.lookup p.1 = none) ∧
      ∀ name ∈ o.pops, ∀ info ∈ (γ.work t).on Impl.Session.parts,
        ∀ record ∈ (P.state.world.clients 0).streamLocks.lookup name, record.lbsInfo = info.lbsInfo
  | .again _ | .start _ _ | .env _ | .crash _ => True

/-- A client that was just created. -/
structure Unused (P : Pool (machine J r)) : Prop where
  /-- Nothing runs. -/
  threads : P.threads = []
  /-- Nothing is recorded. -/
  streamLocks : (P.state.world.clients 0).streamLocks = ∅
  /-- Its context is not done. -/
  ctxDone : (P.state.world.clients 0).ctxDone = false

end

/-! ## What an event does -/

section

variable {J : Json} {r : Config} {P P' : Pool (machine J r)} {e : Event (machine J r)} {γ : Tally}

theorem Unused.not_live (h₀ : Unused P) (t : Nat) (c : Unit) (f : Call) : ¬ P.Live t c f := by
  rintro ⟨p, hp⟩
  simp [h₀.threads] at hp

theorem Lawful.refl (r : Client) (s : Server) : Lawful r s s :=
  ⟨fun _ h ↦ h, le_rfl, fun _ _ h ↦ h⟩

/-- An operation of the LBS acts on the world of the client. -/
theorem exec_world {t : Nat} {c : Unit} {o : Impl.Op} {ch : Choice} {x : o.Reply} {f : Option Call}
    (hs : Pool.Step P (.op (M := machine J r) t c (.client o) ch x f) P') :
    ∃ g, World.exec 0 o ch.base P.state.world = some (x, P'.state.world, g) := by
  obtain ⟨g, hx, -⟩ := State.exec_client hs.op_exec
  exact ⟨g, hx⟩

/-- `Done` is told every stream that is recorded. -/
theorem mem_of_streamNames {t : Nat} {c : Unit} {ch : Choice} {names : List String}
    {f : Option Call} (hs : Pool.Step P (.op (M := machine J r) t c .streamNames ch names f) P')
    {name : String} {info : StreamLocksInfo}
    (hlook : (P'.state.world.clients 0).streamLocks.lookup name = some info) : name ∈ names := by
  have hexec : State.exec .streamNames ch P.state = some (names, P'.state, f) := hs.op_exec
  rw [State.exec] at hexec
  split at hexec
  · next hkeys =>
    obtain ⟨rfl, hstate, -⟩ := State.some_inj hexec
    rw [← hstate] at hlook
    rw [← List.mem_toFinset, hkeys.2]
    exact Finmap.mem_keys.2 (Finmap.mem_of_lookup_eq_some hlook)
  · cases hexec

/-- **An event is an operation of the LBS, or leaves the records alone.** -/
theorem world_cases (hs : Pool.Step P e P') (hG : Ordinary P e) :
    (∃ t c o ch x f g, e = .op (M := machine J r) t c (.client o) ch x f ∧ ch.base.fault = .none ∧
      World.exec 0 o ch.base P.state.world = some (x, P'.state.world, g) ∧ f = g.map .client) ∨
    ((∀ t c o ch x f, e ≠ .op (M := machine J r) t c (.client o) ch x f) ∧
      Lawful r.client P.state.world.server P'.state.world.server ∧
      (P'.state.world.clients 0).streamLocks = (P.state.world.clients 0).streamLocks ∧
      ((P'.state.world.clients 0).ctxDone = true → (P.state.world.clients 0).ctxDone = true ∨
        ∃ t c ch x f, e = .op (M := machine J r) t c .cancelLBS ch x f)) := by
  cases e with
  | op t c o ch x f =>
    have hexec : State.exec o ch P.state = some (x, P'.state, f) := hs.op_exec
    by_cases hc : ∃ o', o = .client o'
    · obtain ⟨o, rfl⟩ := hc
      obtain ⟨g, hx, rfl⟩ := State.exec_client hexec
      exact .inl ⟨t, c, o, ch, x, _, g, rfl, hG.1, hx, rfl⟩
    · have hne : ∀ o', o ≠ .client o' := fun o' ho ↦ hc ⟨o', ho⟩
      obtain ⟨hserver, hlocks, hctx⟩ := State.exec_of_ne hne hexec
      refine .inr ⟨?_, hserver ▸ .refl _ _, hlocks, fun h ↦ (hctx h).imp id ?_⟩
      · rintro t c o ch x f h
        cases h
        exact hne o rfl
      · rintro rfl
        exact ⟨t, c, ch, x, f, rfl⟩
  | again t =>
    cases hs with
    | again ht hp => exact .inr ⟨by simp, .refl _ _, rfl, .inl⟩
  | start c f =>
    cases hs with
    | start => exact .inr ⟨by simp, .refl _ _, rfl, .inl⟩
  | env v =>
    cases hs with
    | env he =>
      cases v with
      | redis server =>
        obtain rfl := Option.some.inj he
        exact .inr ⟨by simp, hG, rfl, .inl⟩
      | topology masters nodes =>
        obtain rfl := Option.some.inj he
        exact .inr ⟨by simp, .refl _ _, rfl, .inl⟩
      | cancel => exact hG.elim
  | crash c => exact hG.elim

/-- A record was there before, or has just been made. -/
theorem lookup_step (hs : Pool.Step P e P') (hG : Ordinary P e) {name : String}
    {info : StreamLocksInfo}
    (h : (P'.state.world.clients 0).streamLocks.lookup name = some info) :
    (P.state.world.clients 0).streamLocks.lookup name = some info ∨
      ∃ t c ch x f, e = .op (M := machine J r) t c (.client (.putStreamLocks name info)) ch x f := by
  rcases world_cases hs hG with ⟨t, c, o, ch, x, f, g, rfl, -, hx, -⟩ | ⟨-, -, hlocks, -⟩
  · rcases World.exec_lookup hx h with hold | ⟨-, rfl⟩
    · exact .inl hold
    · exact .inr ⟨t, c, ch, x, f, rfl⟩
  · exact .inl (hlocks ▸ h)

/-- A record stays until it is popped or replaced. -/
theorem lookup_kept (hs : Pool.Step P e P') (hG : Ordinary P e) {name : String}
    {info : StreamLocksInfo}
    (h : (P.state.world.clients 0).streamLocks.lookup name = some info) :
    (P'.state.world.clients 0).streamLocks.lookup name = some info ∨
      (∃ t c ch x f, e = .op (M := machine J r) t c (.client (.popStreamLocksInfo name)) ch x f) ∨
      ∃ t c info' ch x f,
        e = .op (M := machine J r) t c (.client (.putStreamLocks name info')) ch x f := by
  rcases world_cases hs hG with ⟨t, c, o, ch, x, f, g, rfl, -, hx, -⟩ | ⟨-, -, hlocks, -⟩
  · rcases World.exec_streamLocks hx 0 with heq | ⟨n, i, rfl⟩ | ⟨n, rfl⟩
    · exact .inl (heq ▸ h)
    · by_cases hn : name = n
      · subst hn
        exact .inr (.inr ⟨t, c, i, ch, x, f, rfl⟩)
      · rw [World.exec_putStreamLocks hx]
        exact .inl (by simpa [World.setClient, Finmap.lookup_insert_of_ne _ hn] using h)
    · by_cases hn : name = n
      · subst hn
        exact .inr (.inl ⟨t, c, ch, x, f, rfl⟩)
      · rw [(World.exec_popStreamLocksInfo hx).2]
        exact .inl (by simpa [World.setClient, Finmap.lookup_erase_ne hn] using h)
  · exact .inl (hlocks ▸ h)

/-- A key of the client stays until the client unlocks it. -/
theorem key_step (hs : Pool.Step P e P') (hG : Ordinary P e) {k : String}
    (h : P.state.world.server.keys k = some r.client.consumerID) :
    P'.state.world.server.keys k = some r.client.consumerID ∨
      ∃ t c m ch x f, e = .op (M := machine J r) t c (.client (.unlock m)) ch x f ∧ m.name = k := by
  rcases world_cases hs hG with ⟨t, c, o, ch, x, f, g, rfl, -, hx, -⟩ | ⟨-, hlaw, -⟩
  · rcases World.exec_key_held hx h with hk | ⟨m, rfl, hm⟩
    · exact .inl hk
    · exact .inr ⟨t, c, m, ch, x, f, rfl, hm⟩
  · exact .inl (hlaw.keys k h)

theorem handedOut_step (hs : Pool.Step P e P') (hG : Ordinary P e) {id : String}
    (h : r.client.HandedOut P.state.world.server id) :
    r.client.HandedOut P'.state.world.server id := by
  rcases world_cases hs hG with ⟨t, c, o, ch, x, f, g, rfl, -, hx, -⟩ | ⟨-, hlaw, -⟩
  · exact h.mono (World.exec_succeeds hx _ _).top_le
  · exact h.mono hlaw.top

/-- What was handed out is pending only if it was so before. -/
theorem stillPending_step (hs : Pool.Step P e P') (hG : Ordinary P e) {l : LBSInfo}
    (hl : r.client.HandedOut P.state.world.server l.idInLBS)
    (h : StillPending r.client P'.state.world.server l) :
    StillPending r.client P.state.world.server l := by
  obtain ⟨i, hi, hmem⟩ := h
  obtain ⟨j, hj, hle⟩ := hl
  obtain rfl : j = i := by
    rw [hj, StreamID.ofText?_text] at hi
    exact Option.some.inj hi
  refine ⟨j, hi, ?_⟩
  rcases world_cases hs hG with ⟨t, c, o, ch, x, f, g, rfl, -, hx, -⟩ | ⟨-, hlaw, -⟩
  · exact (World.exec_succeeds hx _ _).mem hle hmem
  · exact hlaw.pending j hle hmem

/-- **The calls that are started.** -/
theorem started_cases (hob : (works J r).Obeying P γ.work) (hs : Pool.Step P e P')
    (hG : Ordinary P e) {c : Unit} {f : Call} (h : e.starts = some (c, f)) :
    f = .done ∨ f.isSetup = true ∨ ∃ t m l i ch x g,
      e = .op (M := machine J r) t c (.client (.goStartExtendingKey m l i)) ch x g ∧
        f = .client (.startExtendingKey m l i) := by
  cases e with
  | start d g =>
    obtain ⟨rfl, rfl⟩ := Prod.mk.inj (Option.some.inj h)
    exact hG.imp Call.eq_done .inl
  | op t d o ch x g =>
    obtain ⟨g, rfl, heq⟩ := Option.map_eq_some_iff.1 h
    obtain ⟨rfl, rfl⟩ := Prod.mk.inj heq
    have hexec : State.exec o ch P.state = some (x, P'.state, some g) := hs.op_exec
    have hok : (γ.work t).Ok J r o := hob.ok hs
    rcases State.exec_starts hexec with rfl | ⟨o, f, rfl, rfl⟩
    · -- only goroutines that are aside start others
      cases hw : γ.work t with
      | aside =>
        rw [hw] at hok
        exact .inr (.inl hok)
      | _ =>
        rw [hw] at hok
        exact hok.elim
    · obtain ⟨g, hx, hg⟩ := State.exec_client hexec
      obtain ⟨g', rfl, hcall⟩ := Option.map_eq_some_iff.1 hg.symm
      obtain rfl := Call.client.inj hcall
      obtain ⟨m, l, i, rfl, rfl⟩ := World.exec_fork hx
      exact .inr (.inr ⟨t, m, l, i, ch, x, _, rfl, rfl⟩)
  | _ => cases h

theorem ne_cleanup (hob : (works J r).Obeying P γ.work) (hs : Pool.Step P e P')
    (hG : Ordinary P e) {c : Unit} {f : Call} (h : e.starts = some (c, f)) : f ≠ .cleanup := by
  rintro rfl
  rcases started_cases hob hs hG h with heq | hf | ⟨t, m, l, i, ch, x, g, -, heq⟩
  · cases heq
  · cases hf
  · cases heq

theorem Tally.announces_eq_some {l : LBSInfo} (h : announces e = some l) :
    ∃ t c ctx m ch x f, e = .op (M := machine J r) t c (.client (.broker (.select ctx m))) ch x f ∧
      m.type = .streamAdded ∧ m.payload = l := by
  unfold announces at h
  split at h
  · split at h
    · next hsent => exact ⟨_, _, _, _, _, _, _, rfl, hsent.2, Option.some.inj h⟩
    · cases h
  · cases h

theorem Tally.takes_eq_some {l : LBSInfo} (h : takes e = some l) :
    ∃ t c name info ch x f,
      e = .op (M := machine J r) t c (.client (.putStreamLocks name info)) ch x f ∧
        info.lbsInfo = l := by
  cases e with
  | op t c o ch x f =>
    obtain ⟨⟨name, info⟩, hrec, rfl⟩ := Option.map_eq_some_iff.1 h
    unfold Op.records at hrec
    split at hrec
    · obtain ⟨rfl, rfl⟩ := Prod.mk.inj (Option.some.inj hrec)
      exact ⟨_, _, _, _, _, _, _, rfl, rfl⟩
    · cases hrec
  | _ => cases h

/-- **What a session tells after an event** it told before, learnt from an operation of the LBS,
or told from the start. -/
theorem on_step {α : Type} {F : Impl.Session → Option α} (hover : F .over = none)
    (hob : (works J r).Obeying P γ.work) (hs : Pool.Step P e P') {t : Nat} {c : Unit} {f : Call}
    (hl : P'.Live t c f) {a : α} (ha : ((works J r).track γ.work P e t).on F = some a) :
    (P.Live t c f ∧ (γ.work t).on F = some a) ∨
      (∃ o ch x g q, e = .op (M := machine J r) t c (.client o) ch x g ∧ P.Live t c f ∧
        ((γ.work t).session = some q ∨ ((γ.work t).session = some .over ∧ q = .finishing)) ∧
          q.Ok J r.client o ∧ F (q.next J r.client o x) = some a) ∨
      (t = P.threads.length ∧ e.starts = some (c, f) ∧ (Work.start f).on F = some a) := by
  rcases hs.live_iff.1 hl with ⟨hl, -⟩ | ⟨rfl, hst⟩
  · by_cases hm : e.mover = some t
    · cases e with
      | op t' c' o ch x g =>
        obtain rfl : t' = t := Option.some.inj hm
        obtain ⟨f', hl'⟩ := hs.op_live
        obtain ⟨rfl, rfl⟩ := hl.unique hl'
        have hok : (γ.work t').Ok J r o := hob.ok hs
        rw [Contract.track_op_self hl.lt_length] at ha
        replace ha : ((γ.work t').next J r o x).on F = some a := ha
        by_cases hc : ∃ o', o = .client o'
        · obtain ⟨o, rfl⟩ := hc
          rcases Work.client_cases hok x with ⟨q₀, q, hq₀, hq, hokq, hnext⟩ | ⟨hsame, -⟩
          · refine .inr (.inl ⟨o, ch, x, g, q, rfl, hl, ?_, hokq, ?_⟩)
            · rcases hq with rfl | ⟨rfl, rfl⟩
              · exact .inl hq₀
              · exact .inr ⟨hq₀, rfl⟩
            · rw [Work.on, hnext] at ha
              exact ha
          · rw [Work.on, hsame] at ha
            exact .inl ⟨hl, ha⟩
        · rcases Work.next_of_ne (fun o' ho ↦ hc ⟨o', ho⟩) hok x with hsame | ⟨-, -, names, hnext⟩
          · rw [hsame] at ha
            exact .inl ⟨hl, ha⟩
          · rw [hnext] at ha
            cases hover.symm.trans ha
      | _ => cases hm
    · rw [Contract.track_of_mover_ne hl.lt_length hm] at ha
      exact .inl ⟨hl, ha⟩
  · rw [Contract.track_starts hst] at ha
    exact .inr (.inr ⟨rfl, hst, ha⟩)

/-! ## The invariant -/

/-- The IDs of the messages that a goroutine has yet to record. -/
def Work.waits (w : Work) : List String := w.session.elim [] Impl.Session.waits

/-- Nothing waits with a new goroutine. -/
theorem Work.waits_start (f : Call) : (Work.start f).waits = [] := by
  cases f with
  | client g =>
    rw [Work.start]
    split
    · rfl
    · exact Impl.Session.waits_start g
  | _ => rfl

/-- An extender that leaves has looked after its record. -/
theorem Work.tends_of_parts {w : Work} {info : StreamLocksInfo}
    (h : w.on Impl.Session.parts = some info) : w.on Impl.Session.tends = some info := by
  obtain ⟨q, hq, hparts⟩ := Option.bind_eq_some_iff.1 h
  rw [Work.on, hq]
  exact Impl.Session.tends_of_parts hparts

/-- The record is one that the client made, with the lock of its entry. -/
def Owned (r : Config) (γ : Tally) (info : StreamLocksInfo) : Prop :=
  info.redsyncMutex = ⟨info.lbsInfo.formMutexKey, r.client.consumerID⟩ ∧ info.lbsInfo ∈ γ.taken

/-- **What holds in every ordinary run.** -/
structure Booked (P : Pool (machine J r)) (γ : Tally) : Prop where
  /-- The client keeps its contract. -/
  obeying : (works J r).Obeying P γ.work
  /-- Goroutines are what they were started as. -/
  plays : ∀ t c f, P.Live t c f → (γ.work t).Plays f
  /-- No goroutine was started to send a notification. -/
  unsent : ∀ t c ctx m, ¬ P.Live t c (.client (.broker (.send ctx m)))
  /-- An entry waits with one reader, until it is recorded. -/
  handout : Handout (works J r) (fun _ ↦ Work.waits)
    (fun s ↦ r.client.HandedOut s.world.server) P γ.work {id | ∃ l ∈ γ.taken, l.idInLBS = id}
  /-- The records are those of entries the client has locked. -/
  records : ∀ name info, (P.state.world.clients 0).streamLocks.lookup name = some info →
    name = info.lbsInfo.dataStreamName ∧ Owned r γ info ∧
      P.state.world.server.keys info.lbsInfo.formMutexKey = some r.client.consumerID
  /-- What a reader has locked is locked. -/
  locks : ∀ t c f, P.Live t c f → ∀ l, (γ.work t).on Impl.Session.locks = some l →
    P.state.world.server.keys l.formMutexKey = some r.client.consumerID
  /-- What is looked after was recorded. -/
  owned : ∀ t c f, P.Live t c f → ∀ info, (γ.work t).on Impl.Session.tends = some info →
    Owned r γ info
  /-- What `DoneStream` holds is not recorded. -/
  holds : ∀ t c f, P.Live t c f → ∀ info, (γ.work t).on Impl.Session.holds = some info →
    Owned r γ info ∧ ∀ name record,
      (P.state.world.clients 0).streamLocks.lookup name = some record →
        record.lbsInfo ≠ info.lbsInfo
  /-- `Done` knows what is recorded. -/
  todo : ∀ t c f, P.Live t c f → ∀ names q, γ.work t = .done names q →
    ∀ name info, (P.state.world.clients 0).streamLocks.lookup name = some info → name ∈ names
  /-- What was announced was recorded. -/
  announced : ∀ l ∈ γ.announced, l ∈ γ.taken
  /-- When the context is done, so is `Done` with its streams. -/
  ctx : (P.state.world.clients 0).ctxDone = true →
    (∀ name, (P.state.world.clients 0).streamLocks.lookup name = none) ∧
      ∃ th ∈ P.threads, th.call.isDone = true
  /-- An extender that leaves is not one of a stream that is recorded. -/
  parts : ∀ t c f, P.Live t c f → ∀ info, (γ.work t).on Impl.Session.parts = some info →
    ∀ name record, (P.state.world.clients 0).streamLocks.lookup name = some record →
      record.lbsInfo ≠ info.lbsInfo

/-- **What holds as long as every record keeps its place.** -/
structure Placed (P : Pool (machine J r)) (γ : Tally) : Prop extends Booked P γ where
  /-- What was taken and is pending is recorded, or held by a `DoneStream` that has yet to
  acknowledge it. -/
  pending : ∀ l ∈ γ.taken, StillPending r.client P.state.world.server l →
    (∃ info, (P.state.world.clients 0).streamLocks.lookup l.dataStreamName = some info ∧
      info.lbsInfo = l) ∨
    ∃ t c f info, P.Live t c f ∧ (γ.work t).session = some (.popped info) ∧ info.lbsInfo = l

/-- **What holds as long as streams are recorded anew.** -/
structure Kept (P : Pool (machine J r)) (γ : Tally) : Prop extends Placed P γ where
  /-- What is recorded is what is looked after. -/
  tends : ∀ t c f, P.Live t c f → P.isOver t = false →
    ∀ info, (γ.work t).on Impl.Session.tends = some info →
      ∀ record, (P.state.world.clients 0).streamLocks.lookup info.lbsInfo.dataStreamName =
        some record → record.lbsInfo = info.lbsInfo

namespace Booked

theorem init (h₀ : Unused P) : Booked P .new := by
  have hdead := h₀.not_live
  have hnone (name : String) : (P.state.world.clients 0).streamLocks.lookup name = none := by
    rw [h₀.streamLocks]
    exact Finmap.lookup_empty name
  refine ⟨?_, ?_, ?_, ?_, ?_, ?_, ?_, ?_, ?_, ?_, ?_, ?_⟩
  · intro t th p ht
    simp [h₀.threads] at ht
  · exact fun t c f hl ↦ absurd hl (hdead t c f)
  · exact fun t c ctx m ↦ hdead t c _
  · have hgone : {id | ∃ l ∈ Tally.new.taken, l.idInLBS = id} = ∅ := by
      ext id
      simp [Tally.new]
    rw [hgone]
    exact Handout.nil h₀.threads _
  · intro name info h
    rw [hnone name] at h
    cases h
  · exact fun t c f hl ↦ absurd hl (hdead t c f)
  · exact fun t c f hl ↦ absurd hl (hdead t c f)
  · exact fun t c f hl ↦ absurd hl (hdead t c f)
  · exact fun t c f hl ↦ absurd hl (hdead t c f)
  · intro l hl
    cases hl
  · intro h
    rw [h₀.ctxDone] at h
    cases h
  · exact fun t c f hl ↦ absurd hl (hdead t c f)

/-! ### Who does what -/

section

variable (hB : Booked P γ)

include hB

/-- What was taken was handed out. -/
theorem handed {l : LBSInfo} (hl : l ∈ γ.taken) :
    r.client.HandedOut P.state.world.server l.idInLBS :=
  hB.handout.gone_old _ ⟨l, hl, rfl⟩

/-- An operation on the locked streams is allowed in the session of its goroutine. -/
theorem exists_session {t : Nat} {c : Unit} {o : Impl.Op} {ch : Choice} {x : o.Reply}
    {g : Option Call} (hs : Pool.Step P (.op (M := machine J r) t c (.client o) ch x g) P')
    (hrec : ∀ m, o ≠ .record m) (hbr : ∀ b, o ≠ .broker b) :
    ∃ q, ((γ.work t).session = some q ∨ ((γ.work t).session = some .over ∧ q = .finishing)) ∧
      q.Ok J r.client o ∧
        ((γ.work t).next J r (.client o) x).session = some (q.next J r.client o x) := by
  have hok : (γ.work t).Ok J r (.client o) := hB.obeying.ok hs
  rcases Work.client_cases hok x with ⟨q₀, q, hq₀, hq, hokq, hnext⟩ |
    ⟨-, ⟨m, rfl⟩ | ⟨b, rfl, -⟩⟩
  · refine ⟨q, ?_, hokq, hnext⟩
    rcases hq with rfl | ⟨rfl, rfl⟩
    · exact .inl hq₀
    · exact .inr ⟨hq₀, rfl⟩
  · exact absurd rfl (hrec m)
  · exact absurd rfl (hbr b)

/-- Whoever records an entry has locked it. -/
theorem locks_of_put {t : Nat} {c : Unit} {name : String} {info : StreamLocksInfo} {ch : Choice}
    {x : Unit} {g : Option Call}
    (hs : Pool.Step P (.op (M := machine J r) t c (.client (.putStreamLocks name info)) ch x g) P') :
    (γ.work t).on Impl.Session.locks = some info.lbsInfo ∧ info.lbsInfo.dataStreamName = name ∧
      info.redsyncMutex = ⟨info.lbsInfo.formMutexKey, r.client.consumerID⟩ := by
  obtain ⟨q, hq, ⟨message, todo, rfl, hinfo, hmutex⟩, -⟩ :=
    hB.exists_session hs (by simp) (by simp)
  refine ⟨Work.on_of_session rfl hq ?_, by rw [hinfo], by rw [hinfo]; exact hmutex⟩
  rw [hinfo]
  rfl

/-- Whoever unlocks a key holds its record. -/
theorem holds_of_unlock {t : Nat} {c : Unit} {m : RedsyncMutex} {ch : Choice}
    {x : Bool × Option Err} {g : Option Call}
    (hs : Pool.Step P (.op (M := machine J r) t c (.client (.unlock m)) ch x g) P') :
    ∃ f info, P.Live t c f ∧ (γ.work t).on Impl.Session.holds = some info ∧
      m = info.redsyncMutex := by
  obtain ⟨q, hq, ⟨info, rfl, rfl⟩, -⟩ := hB.exists_session hs (by simp) (by simp)
  obtain ⟨f, hl⟩ := hs.op_live
  exact ⟨f, info, hl, Work.on_of_session rfl hq rfl, rfl⟩

/-- What waits with a goroutine was handed out, and is not held by any other. -/
theorem waits_handed {t : Nat} {c : Unit} {f : Call} (hl : P.Live t c f) {l : LBSInfo}
    (h : (γ.work t).on Impl.Session.locks = some l) :
    r.client.HandedOut P.state.world.server l.idInLBS ∧ ∀ l' ∈ γ.taken, l'.idInLBS ≠ l.idInLBS := by
  obtain ⟨q, hq, hlocks⟩ := Option.bind_eq_some_iff.1 h
  have hmem : l.idInLBS ∈ (γ.work t).waits := by
    rw [Work.waits, hq]
    exact Impl.Session.mem_waits_of_locks hlocks
  refine ⟨hB.handout.old t c f hl _ hmem, fun l' hl' heq ↦ ?_⟩
  exact hB.handout.untaken t c f hl _ hmem ⟨l', hl', heq⟩

/-- A goroutine of `Done` was started as such. -/
theorem isDone_of_done {t : Nat} {c : Unit} {f : Call} (hl : P.Live t c f) {names : List String}
    {q : Impl.Session} (hw : γ.work t = .done names q) : ∃ th ∈ P.threads, th.call.isDone = true := by
  have hplays := hB.plays t c f hl
  rw [hw] at hplays
  obtain ⟨rfl, -⟩ := hplays
  obtain ⟨p, hp⟩ := hl
  exact ⟨_, List.mem_of_getElem? hp, rfl⟩

/-- The loops of the broker are aside, and nobody else was started on the broker. -/
theorem session_ne_broker {t : Nat} {c : Unit} {f : Call} (hl : P.Live t c f) :
    (γ.work t).session ≠ some .broker := by
  intro hq
  have hplays := hB.plays t c f hl
  cases hw : γ.work t with
  | client q =>
    rw [hw] at hplays hq
    obtain rfl := Option.some.inj hq
    obtain ⟨g, rfl, hkeeps, hrole⟩ := hplays
    cases g with
    | broker b =>
      cases b with
      | send ctx m => exact absurd hl (hB.unsent t c ctx m)
      | _ => cases hkeeps
    | _ => cases hrole
  | done names q =>
    rw [hw] at hplays hq
    obtain rfl := Option.some.inj hq
    cases hplays.2
  | _ =>
    rw [hw] at hq
    cases hq

/-- Whoever announces an entry has recorded it. -/
theorem taken_of_select {t : Nat} {c : Unit} {ctx : Nat} {m : RecoverableRedisNotification}
    {ch : Choice} {x : Broker.SendCase} {g : Option Call}
    (hs : Pool.Step P (.op (M := machine J r) t c (.client (.broker (.select ctx m))) ch x g) P')
    (hm : m.type = .streamAdded) : m.payload ∈ γ.taken := by
  have hok : (γ.work t).Ok J r (.client (.broker (.select ctx m))) := hB.obeying.ok hs
  obtain ⟨f, hl⟩ := hs.op_live
  rcases Work.client_cases hok x with ⟨q₀, q, hq₀, hq, hokq, -⟩ | ⟨-, ⟨m, heq⟩ | ⟨b, heq, hb⟩⟩
  · obtain rfl : q = q₀ := by
      rcases hq with rfl | ⟨rfl, rfl⟩
      · rfl
      · exact hokq.elim
    replace hokq : q.OkSend m := hokq
    cases q with
    | recorded info todo =>
      obtain rfl : m = make .streamAdded info.lbsInfo info.additionalInfo := hokq
      refine (hB.owned t c f hl info ?_).2
      rw [Work.on, hq₀]
      rfl
    | disowned info =>
      obtain rfl : m = make .streamDisowned info.lbsInfo info.additionalInfo := hokq
      cases hm
    | batch todo => cases hm.symm.trans hokq
    | stopped => cases hm.symm.trans hokq
    | broker => exact absurd hq₀ (hB.session_ne_broker hl)
    | _ => exact hokq.elim
  · cases heq
  · cases heq
    cases hm.symm.trans (hb ctx m rfl)

/-- Who holds a record is `Done` or a `DoneStream`. -/
theorem finishes_of_popped {t : Nat} {c : Unit} {f : Call} (hl : P.Live t c f)
    {info : StreamLocksInfo} (hq : (γ.work t).session = some (.popped info)) :
    f.finishes = true := by
  have hplays := hB.plays t c f hl
  cases hw : γ.work t with
  | client q =>
    rw [hw] at hq hplays
    obtain rfl := Option.some.inj hq
    obtain ⟨g, rfl, -, hrole⟩ := hplays
    cases g with
    | doneStream name => rfl
    | _ => cases hrole
  | done names q =>
    rw [hw] at hplays
    rw [hplays.1]
    rfl
  | _ =>
    rw [hw] at hq
    cases hq

/-- Who holds a record is at work. -/
theorem not_isOver_of_popped {t : Nat} {c : Unit} {f : Call} (hl : P.Live t c f)
    {info : StreamLocksInfo} (hq : (γ.work t).session = some (.popped info)) :
    P.isOver t = false := by
  refine Bool.eq_false_iff.2 fun hover ↦ ?_
  obtain ⟨p, hp⟩ := hl
  obtain ⟨x, rfl⟩ := Pool.over_of_isOver hover _ p hp rfl
  have hexit : (γ.work t).Exit (.inl x) := hB.obeying t _ _ hp rfl
  cases Work.over_of_exit hexit hq rfl

variable (hs : Pool.Step P e P') (hG : Ordinary P e)

include hs hG

/-- A key of the client stays as long as nobody holds its record. -/
theorem key_kept {l : LBSInfo} (hl : r.client.HandedOut P.state.world.server l.idInLBS)
    (hne : ∀ t c f info, P.Live t c f → (γ.work t).on Impl.Session.holds = some info →
      info.lbsInfo ≠ l)
    (h : P.state.world.server.keys l.formMutexKey = some r.client.consumerID) :
    P'.state.world.server.keys l.formMutexKey = some r.client.consumerID := by
  rcases key_step hs hG h with hk | ⟨t, c, m, ch, x, g, rfl, hm⟩
  · exact hk
  · obtain ⟨f, info, hlive, hholds, rfl⟩ := hB.holds_of_unlock hs
    obtain ⟨⟨hmutex, htaken⟩, -⟩ := hB.holds t c f hlive info hholds
    rw [hmutex] at hm
    exact absurd ((hB.handed htaken).key_inj hl hm) (hne t c f info hlive hholds)

/-- Whoever starts an extender looks after its record. -/
theorem tends_of_start {c : Unit} {f : Call} (hst : e.starts = some (c, f))
    {info : StreamLocksInfo} (h : (Work.start f).on Impl.Session.tends = some info) :
    ∃ t d g, P.Live t d g ∧ P.isOver t = false ∧
      (γ.work t).on Impl.Session.tends = some info := by
  rcases started_cases hB.obeying hs hG hst with rfl | hf | ⟨t, m, l, i, ch, x, g, rfl, rfl⟩
  · cases h
  · -- what is started from outside looks after nothing
    rw [Work.on_start rfl ?_] at h
    · cases h
    · rintro g rfl
      have hpub : g.Public := of_decide_eq_true hf
      cases g with
      | startExtendingKey m l i => exact hpub.elim
      | _ => rfl
  · obtain ⟨q, hq, ⟨todo, hgo⟩, -⟩ := hB.exists_session hs (by simp) (by simp)
    obtain ⟨g', ht⟩ := hs.op_live
    obtain rfl : StreamLocksInfo.mk l m i = info := Option.some.inj h
    have htends : q.tends = some ⟨l, m, i⟩ := by
      rcases hgo with rfl | rfl <;> rfl
    exact ⟨t, c, g', ht, Pool.isOver_of_op hs, Work.on_of_session rfl hq htends⟩

/-! ### One event -/

omit hB hs hG in
theorem mem_taken {l : LBSInfo} (h : l ∈ γ.taken) : l ∈ (γ.update P e).taken :=
  List.mem_append_left _ h

theorem records_step {name : String} {info : StreamLocksInfo}
    (h : (P'.state.world.clients 0).streamLocks.lookup name = some info) :
    name = info.lbsInfo.dataStreamName ∧ Owned r (γ.update P e) info ∧
      P'.state.world.server.keys info.lbsInfo.formMutexKey = some r.client.consumerID := by
  rcases lookup_step hs hG h with hold | ⟨t, c, ch, x, g, rfl⟩
  · obtain ⟨hname, ⟨hmutex, htaken⟩, hkey⟩ := hB.records name info hold
    refine ⟨hname, ⟨hmutex, mem_taken htaken⟩, hB.key_kept hs hG (hB.handed htaken) ?_ hkey⟩
    intro t c f info' hl hholds heq
    exact (hB.holds t c f hl info' hholds).2 name info hold heq.symm
  · obtain ⟨hlocks, hname, hmutex⟩ := hB.locks_of_put hs
    obtain ⟨f, hl⟩ := hs.op_live
    have hkey := hB.locks t c f hl _ hlocks
    refine ⟨hname.symm, ⟨hmutex, List.mem_append_right _ List.mem_cons_self⟩, ?_⟩
    rcases key_step hs hG hkey with hk | ⟨t, c, m, ch, x, g, heq, -⟩
    · exact hk
    · cases heq

theorem locks_step {t : Nat} {c : Unit} {f : Call} (hl : P'.Live t c f) {l : LBSInfo}
    (h : ((works J r).track γ.work P e t).on Impl.Session.locks = some l) :
    P'.state.world.server.keys l.formMutexKey = some r.client.consumerID := by
  have hkeep (hl : P.Live t c f) (hlocks : (γ.work t).on Impl.Session.locks = some l) :
      P'.state.world.server.keys l.formMutexKey = some r.client.consumerID := by
    obtain ⟨hhanded, hapart⟩ := hB.waits_handed hl hlocks
    refine hB.key_kept hs hG hhanded ?_ (hB.locks t c f hl l hlocks)
    rintro u d g info hu hholds rfl
    exact hapart _ (hB.holds u d g hu info hholds).1.2 rfl
  rcases on_step rfl hB.obeying hs hl h with ⟨hl, hlocks⟩ | ⟨o, ch, x, g, q, rfl, hl, hq, hok, ha⟩ |
    ⟨-, -, ha⟩
  · exact hkeep hl hlocks
  · rcases Impl.Session.locks_next hok ha with hold | hnew
    · exact hkeep hl (Work.on_of_session rfl hq hold)
    · obtain ⟨g', hx⟩ := exec_world hs
      cases hnew
      exact World.exec_lock_held hx
  · rw [Work.on_start rfl fun g _ ↦ by cases g <;> rfl] at ha
    cases ha

theorem holds_step {t : Nat} {c : Unit} {f : Call} (hl : P'.Live t c f) {info : StreamLocksInfo}
    (h : ((works J r).track γ.work P e t).on Impl.Session.holds = some info) :
    Owned r (γ.update P e) info ∧ ∀ name record,
      (P'.state.world.clients 0).streamLocks.lookup name = some record →
        record.lbsInfo ≠ info.lbsInfo := by
  have hkeep (hl : P.Live t c f) (hholds : (γ.work t).on Impl.Session.holds = some info) :
      Owned r (γ.update P e) info ∧ ∀ name record,
        (P'.state.world.clients 0).streamLocks.lookup name = some record →
          record.lbsInfo ≠ info.lbsInfo := by
    obtain ⟨⟨hmutex, htaken⟩, hne⟩ := hB.holds t c f hl info hholds
    refine ⟨⟨hmutex, mem_taken htaken⟩, fun name record hrec ↦ ?_⟩
    rcases lookup_step hs hG hrec with hold | ⟨u, d, ch, x, g, rfl⟩
    · exact hne name record hold
    · -- what is being recorded was not taken before
      obtain ⟨hlocks, -⟩ := hB.locks_of_put hs
      obtain ⟨f', hu⟩ := hs.op_live
      intro heq
      exact (hB.waits_handed hu hlocks).2 _ htaken (by rw [heq])
  rcases on_step rfl hB.obeying hs hl h with ⟨hl, hholds⟩ | ⟨o, ch, x, g, q, rfl, hl, hq, hok, ha⟩ |
    ⟨-, -, ha⟩
  · exact hkeep hl hholds
  · rcases Impl.Session.holds_next hok ha with hold | ⟨rfl, name, hnew⟩
    · exact hkeep hl (Work.on_of_session rfl hq hold)
    · obtain ⟨g', hx⟩ := exec_world hs
      cases hnew
      obtain ⟨hrec, hw⟩ := World.exec_popStreamLocksInfo hx
      obtain ⟨hname, ⟨hmutex, htaken⟩, -⟩ := hB.records name info hrec.symm
      refine ⟨⟨hmutex, mem_taken htaken⟩, fun name' record hrec' heq ↦ ?_⟩
      rw [hw] at hrec'
      have hne : name' ≠ name := by
        rintro rfl
        simp [World.setClient] at hrec'
      have hold : (P.state.world.clients 0).streamLocks.lookup name' = some record := by
        simpa [World.setClient, Finmap.lookup_erase_ne hne] using hrec'
      rw [(hB.records name' record hold).1, heq, ← hname] at hne
      exact hne rfl
  · rw [Work.on_start rfl fun g _ ↦ by cases g <;> rfl] at ha
    cases ha

theorem owned_step {t : Nat} {c : Unit} {f : Call} (hl : P'.Live t c f) {info : StreamLocksInfo}
    (h : ((works J r).track γ.work P e t).on Impl.Session.tends = some info) :
    Owned r (γ.update P e) info := by
  have hkeep {u : Nat} {d : Unit} {f : Call} (hu : P.Live u d f)
      (htends : (γ.work u).on Impl.Session.tends = some info) : Owned r (γ.update P e) info :=
    (hB.owned u d f hu info htends).imp id mem_taken
  rcases on_step rfl hB.obeying hs hl h with ⟨hl, htends⟩ | ⟨o, ch, x, g, q, rfl, hl, hq, hok, ha⟩ |
    ⟨-, hst, ha⟩
  · exact hkeep hl htends
  · rcases Impl.Session.tends_next hok ha with hold | ⟨-, rfl⟩
    · exact hkeep hl (Work.on_of_session rfl hq hold)
    · obtain ⟨-, -, hmutex⟩ := hB.locks_of_put hs
      exact ⟨hmutex, List.mem_append_right _ List.mem_cons_self⟩
  · obtain ⟨u, d, g, hu, -, htends⟩ := hB.tends_of_start hs hG hst ha
    exact hkeep hu htends

theorem parts_step {t : Nat} {c : Unit} {f : Call} (hl : P'.Live t c f) {info : StreamLocksInfo}
    (h : ((works J r).track γ.work P e t).on Impl.Session.parts = some info) {name : String}
    {record : StreamLocksInfo}
    (hlook : (P'.state.world.clients 0).streamLocks.lookup name = some record) :
    record.lbsInfo ≠ info.lbsInfo := by
  -- an entry that was recorded is not recorded again
  have hkeep (hl : P.Live t c f) (hparts : (γ.work t).on Impl.Session.tends = some info)
      (hnone : (P.state.world.clients 0).streamLocks.lookup name = some record →
        record.lbsInfo ≠ info.lbsInfo) : record.lbsInfo ≠ info.lbsInfo := by
    rcases lookup_step hs hG hlook with hold | ⟨u, d, ch, x, g, rfl⟩
    · exact hnone hold
    · obtain ⟨hlocks, -⟩ := hB.locks_of_put hs
      obtain ⟨f', hu⟩ := hs.op_live
      intro heq
      exact (hB.waits_handed hu hlocks).2 _ (hB.owned t c f hl info hparts).2 (by rw [heq])
  rcases on_step rfl hB.obeying hs hl h with ⟨hl, hparts⟩ | ⟨o, ch, x, g, q, rfl, hl, hq, hok, ha⟩ |
    ⟨-, -, ha⟩
  · exact hkeep hl (Work.tends_of_parts hparts) (hB.parts t c f hl info hparts name record)
  · rcases Impl.Session.parts_next hok ha with hold | ⟨htends, hwhy⟩
    · have hparts := Work.on_of_session rfl hq hold
      exact hkeep hl (Work.tends_of_parts hparts) (hB.parts t c f hl info hparts name record)
    · have htends := Work.on_of_session rfl hq htends
      refine hkeep hl htends fun hlook heq ↦ ?_
      obtain ⟨g', hx⟩ := exec_world hs
      obtain ⟨hname, -, hkey⟩ := hB.records _ record hlook
      rcases hwhy with hwhy | hwhy | ⟨res, hres, hwhy⟩ <;> cases hwhy
      · obtain ⟨hctx, -⟩ := Prod.mk.inj (Option.some.inj hx)
        rw [(hB.ctx hctx).1 name] at hlook
        cases hlook
      · have hnone := Option.isNone_iff_eq_none.1 (World.exec_isStreamProcessingDone hx).symm
        rw [← heq, ← hname, hlook] at hnone
        cases hnone
      · -- the lock of a recorded entry is not lost
        refine World.exec_extend_failed hG.1 hx hres ?_
        rw [(hB.owned t c f hl info htends).1, ← heq]
        exact hkey
  · rw [Work.on_start rfl fun g _ ↦ by cases g <;> rfl] at ha
    cases ha

omit hB in
/-- Nothing is recorded once `Done` is called. -/
theorem lookup_of_isDone (hdone : ∃ th ∈ P.threads, th.call.isDone = true) {name : String}
    {info : StreamLocksInfo}
    (hlook : (P'.state.world.clients 0).streamLocks.lookup name = some info) :
    (P.state.world.clients 0).streamLocks.lookup name = some info := by
  obtain ⟨th, hth, hcall⟩ := hdone
  rcases lookup_step hs hG hlook with hold | ⟨t, c, ch, x, g, rfl⟩
  · exact hold
  · rw [hG.2 rfl th hth] at hcall
    cases hcall

theorem todo_step {t : Nat} {c : Unit} {f : Call} (hl : P'.Live t c f) {names : List String}
    {q : Impl.Session} (h : (works J r).track γ.work P e t = .done names q) {name : String}
    {info : StreamLocksInfo}
    (hlook : (P'.state.world.clients 0).streamLocks.lookup name = some info) : name ∈ names := by
  have hold {u : Nat} {d : Unit} {f : Call} (hu : P.Live u d f) {names' : List String}
      {q' : Impl.Session} (hw : γ.work u = .done names' q') :
      (P.state.world.clients 0).streamLocks.lookup name = some info :=
    lookup_of_isDone hs hG (hB.isDone_of_done hu hw) hlook
  rcases hs.live_iff.1 hl with ⟨hl, -⟩ | ⟨rfl, hst⟩
  · by_cases hm : e.mover = some t
    · cases e with
      | op t' c' o ch x g =>
        obtain rfl : t' = t := Option.some.inj hm
        obtain ⟨f', hl'⟩ := hs.op_live
        obtain ⟨rfl, rfl⟩ := hl.unique hl'
        have hok : (γ.work t').Ok J r o := hB.obeying.ok hs
        rw [Contract.track_op_self hl.lt_length] at h
        replace h : (γ.work t').next J r o x = .done names q := h
        rcases Work.next_eq_done hok h with ⟨q', hw⟩ | ⟨name', q', rfl, hw⟩ | ⟨hw, hnames⟩
        · exact hB.todo t' c f hl names q' hw name info (hold hl hw)
        · have hmem := hB.todo t' c f hl _ q' hw name info (hold hl hw)
          refine (List.mem_cons.1 hmem).resolve_left ?_
          rintro rfl
          obtain ⟨g', hx⟩ := exec_world hs
          rw [(World.exec_popStreamLocksInfo hx).2] at hlook
          simp [World.setClient] at hlook
        · cases hnames
          exact mem_of_streamNames hs hlook
      | _ => cases hm
    · rw [Contract.track_of_mover_ne hl.lt_length hm] at h
      exact hB.todo t c f hl names q h name info (hold hl h)
  · rw [Contract.track_starts hst] at h
    have hcleanup := ne_cleanup hB.obeying hs hG hst
    cases f with
    | client g =>
      replace h : (if keepsBroker g then Work.aside else .client (.start g)) = .done names q := h
      split at h <;> cases h
    | cleanup => exact absurd rfl hcleanup
    | _ => cases h

omit hG in
theorem announced_step {l : LBSInfo} (hl : l ∈ (γ.update P e).announced) :
    l ∈ (γ.update P e).taken := by
  rcases List.mem_append.1 hl with hl | hl
  · exact mem_taken (hB.announced l hl)
  · obtain ⟨t, c, ctx, m, ch, x, g, rfl, hm, rfl⟩ :=
      Tally.announces_eq_some (Option.mem_toList.1 hl)
    exact mem_taken (hB.taken_of_select hs hm)

theorem ctx_step (h : (P'.state.world.clients 0).ctxDone = true) :
    (∀ name, (P'.state.world.clients 0).streamLocks.lookup name = none) ∧
      ∃ th ∈ P'.threads, th.call.isDone = true := by
  have hkeep (hnone : ∀ name, (P.state.world.clients 0).streamLocks.lookup name = none)
      (hdone : ∃ th ∈ P.threads, th.call.isDone = true) :
      (∀ name, (P'.state.world.clients 0).streamLocks.lookup name = none) ∧
        ∃ th ∈ P'.threads, th.call.isDone = true := by
    refine ⟨fun name ↦ Option.eq_none_iff_forall_ne_some.2 fun info hlook ↦ ?_, ?_⟩
    · cases (hnone name).symm.trans (lookup_of_isDone hs hG hdone hlook)
    · obtain ⟨th, hth, hcall⟩ := hdone
      obtain ⟨t, ht⟩ := List.getElem?_of_mem hth
      obtain ⟨th', ht', -, hsame⟩ := hs.exists_call ht
      exact ⟨th', List.mem_of_getElem? ht', by rw [hsame]; exact hcall⟩
  rcases world_cases hs hG with ⟨t, c, o, ch, x, f, g, rfl, -, hx, -⟩ | ⟨-, -, -, hctx⟩
  · rw [World.exec_ctxDone hx 0] at h
    exact hkeep (hB.ctx h).1 (hB.ctx h).2
  · rcases hctx h with hold | ⟨t, c, ch, x, f, rfl⟩
    · exact hkeep (hB.ctx hold).1 (hB.ctx hold).2
    · obtain ⟨f', hl⟩ := hs.op_live
      have hok : (γ.work t).Ok J r .cancelLBS := hB.obeying.ok hs
      cases hw : γ.work t with
      | done names q =>
        rw [hw] at hok
        obtain ⟨rfl, rfl⟩ : q = .over ∧ names = [] := hok
        refine hkeep (fun name ↦ Option.eq_none_iff_forall_ne_some.2 fun info hlook ↦ ?_)
          (hB.isDone_of_done hl hw)
        exact absurd (hB.todo t c f' hl [] _ hw name info hlook) List.not_mem_nil
      | aside =>
        rw [hw] at hok
        cases hok
      | _ =>
        rw [hw] at hok
        exact hok.elim

omit hB hs hG in
/-- An event that records nothing takes no entry. -/
theorem taken_ids_eq (hne : Tally.takes e = none) :
    {id | ∃ l ∈ (γ.update P e).taken, l.idInLBS = id} = {id | ∃ l ∈ γ.taken, l.idInLBS = id} := by
  rw [Tally.update, hne]
  simp

omit hs hG in
/-- What an operation of the LBS does to the entries that wait with the goroutine. -/
theorem waits_client {t : Nat} {c : Unit} {o : Impl.Op} {ch : Choice} {x : o.Reply}
    {f : Option Call}
    (hs : Pool.Step P (.op (M := machine J r) t c (.client o) ch x f) P') :
    Handout.Move (r.client.HandedOut P.state.world.server)
      (r.client.HandedOut P'.state.world.server) (γ.work t).waits
      ((γ.work t).next J r (.client o) x).waits {id | ∃ l ∈ γ.taken, l.idInLBS = id}
      {id | ∃ l ∈ (γ.update P (.op (M := machine J r) t c (.client o) ch x f)).taken,
        l.idInLBS = id} := by
  obtain ⟨g, hx⟩ := exec_world hs
  rcases Work.client_cases (hB.obeying.ok hs) x with ⟨q₀, q, hq₀, hq, hokq, hnext⟩ | ⟨hsame, hwhy⟩
  · have hwaits : (γ.work t).waits = q.waits := by
      rw [Work.waits, hq₀]
      rcases hq with rfl | ⟨rfl, rfl⟩ <;> rfl
    have hwaits' : ((γ.work t).next J r (.client o) x).waits = (q.next J r.client o x).waits := by
      rw [Work.waits, hnext]
      rfl
    rw [hwaits, hwaits']
    refine Impl.Session.waits_next hokq hx ?_ ?_
    · rintro name info rfl
      ext id
      simp [Tally.update, Tally.takes, Op.records, or_comm, eq_comm]
    · intro hne
      refine taken_ids_eq ?_
      cases o with
      | putStreamLocks name info => exact absurd rfl (hne name info)
      | _ => rfl
  · refine .keep ?_ (taken_ids_eq ?_)
    · rw [Work.waits, Work.waits, hsame]
    · rcases hwhy with ⟨m, rfl⟩ | ⟨b, rfl, -⟩ <;> rfl

theorem handout_step : Handout (works J r) (fun _ ↦ Work.waits)
    (fun s ↦ r.client.HandedOut s.world.server) P' ((works J r).track γ.work P e)
    {id | ∃ l ∈ (γ.update P e).taken, l.idInLBS = id} := by
  refine Handout.step ?_ ?_ hB.handout hs (fun id ↦ handedOut_step hs hG) ?_
  · rintro t c o ch x f rfl
    by_cases hc : ∃ o', o = .client o'
    · obtain ⟨o, rfl⟩ := hc
      exact hB.waits_client hs
    · refine .keep ?_ (taken_ids_eq ?_)
      · show List.Sublist ((γ.work t).next J r o x).waits (γ.work t).waits
        rcases Work.next_of_ne (fun o' ho ↦ hc ⟨o', ho⟩) (hB.obeying.ok hs) x with
          hsame | ⟨-, -, names, hnext⟩
        · rw [hsame]
        · rw [hnext]
          exact List.nil_sublist _
      · cases o with
        | client o => exact absurd ⟨o, rfl⟩ hc
        | _ => rfl
  · intro c f hst
    show Handout.Passed _ _ _ _ (Work.start f).waits
    rw [Work.waits_start]
    exact .nil
  · intro hm
    refine taken_ids_eq ?_
    cases e with
    | op t c o ch x f => cases hm
    | _ => rfl

/-- What waits to be acknowledged does so until it is acknowledged. -/
theorem popped_step {t : Nat} {c : Unit} {f : Call} (hl : P.Live t c f) {info : StreamLocksInfo}
    (hq : (γ.work t).session = some (.popped info))
    (hpend : StillPending r.client P'.state.world.server info.lbsInfo) :
    ((works J r).track γ.work P e t).session = some (.popped info) := by
  by_cases hm : e.mover = some t
  · cases e with
    | op t' c' o ch x g =>
      obtain rfl : t' = t := Option.some.inj hm
      have hok : (γ.work t').Ok J r o := hB.obeying.ok hs
      rw [Contract.track_op_self hl.lt_length]
      show ((γ.work t').next J r o x).session = _
      by_cases hc : ∃ o', o = .client o'
      · obtain ⟨o, rfl⟩ := hc
        rcases Work.client_cases hok x with ⟨q₀, q, hq₀, hfrom, hokq, hnext⟩ | ⟨hsame, -⟩
        · obtain rfl := Option.some.inj (hq.symm.trans hq₀)
          obtain rfl : q = .popped info := hfrom.resolve_right fun h ↦ by cases h.1
          rw [hnext]
          rcases Impl.Session.finisher_cases rfl hokq x with ⟨-, hsame⟩ | ⟨heq, -⟩ |
            ⟨info', s, k, heq, rfl⟩ | ⟨info', s, heq, -⟩ | ⟨info', heq, -⟩
          · rw [hsame]
          · cases heq
          · obtain rfl := Impl.Session.popped.inj heq
            obtain ⟨rfl, rfl, -⟩ := hokq
            obtain ⟨g', hx⟩ := exec_world hs
            rw [World.exec_xack_clean hG.1] at hx
            obtain ⟨-, hx'⟩ := Prod.mk.inj (Option.some.inj hx)
            rw [← (Prod.mk.inj hx').1] at hpend
            exact absurd hpend not_unacked_xack
          · cases heq
          · cases heq
        · rw [hsame, hq]
      · rcases Work.next_of_ne (fun o' ho ↦ hc ⟨o', ho⟩) hok x with hsame | ⟨hw, -⟩
        · rw [hsame, hq]
        · rw [hw] at hq
          cases hq
    | _ => cases hm
  · rw [Contract.track_of_mover_ne hl.lt_length hm, hq]

/-- **Every ordinary event keeps the books.** -/
theorem step : Booked P' (γ.update P e) where
  obeying := hB.obeying.step hs
  plays := by
    refine hB.obeying.each (I := fun _ f w ↦ Work.Plays w f) (Q := fun _ f w ↦ Work.Plays w f) hs
      hB.plays (fun _ _ _ _ _ _ h ↦ h) ?_ ?_
    · intro t c f o ch x g _ _ hok _ h
      exact Work.plays_next hok h x
    · intro c f hst
      exact Work.plays_start (ne_cleanup hB.obeying hs hG hst)
  unsent t c ctx m hl := by
    rcases hs.live_iff.1 hl with ⟨hl, -⟩ | ⟨-, hst⟩
    · exact hB.unsent t c ctx m hl
    · rcases started_cases hB.obeying hs hG hst with heq | hf | ⟨u, m, l, i, ch, x, g, -, heq⟩
      · cases heq
      · cases hf
      · cases heq
  handout := hB.handout_step hs hG
  records _ _ := hB.records_step hs hG
  locks _ _ _ hl _ := hB.locks_step hs hG hl
  owned _ _ _ hl _ := hB.owned_step hs hG hl
  holds _ _ _ hl _ := hB.holds_step hs hG hl
  todo _ _ _ hl _ _ h _ _ := hB.todo_step hs hG hl h
  announced _ := hB.announced_step hs
  ctx := hB.ctx_step hs hG
  parts _ _ _ hl _ h _ _ := hB.parts_step hs hG hl h

end

end Booked

/-! ### Records in their place -/

namespace Placed

theorem init (h₀ : Unused P) : Placed P .new := ⟨.init h₀, fun _ hl ↦ by cases hl⟩

section

variable (hK : Placed P γ) (hs : Pool.Step P e P') (hG : Ordinary P e)

include hK hs hG

theorem pending_step (hA : KeepsRecords γ P e) {l : LBSInfo} (hl : l ∈ (γ.update P e).taken)
    (hpend : StillPending r.client P'.state.world.server l) :
    (∃ info, (P'.state.world.clients 0).streamLocks.lookup l.dataStreamName = some info ∧
      info.lbsInfo = l) ∨
    ∃ t c f info, P'.Live t c f ∧
      ((works J r).track γ.work P e t).session = some (.popped info) ∧ info.lbsInfo = l := by
  have hlive {t : Nat} {c : Unit} {f : Call} (hl : P.Live t c f) : P'.Live t c f := by
    refine hs.live_iff.2 (.inl ⟨hl, ?_⟩)
    rintro rfl
    exact hG
  rcases List.mem_append.1 hl with hl | hl
  · rcases hK.pending l hl (stillPending_step hs hG (hK.handed hl) hpend) with
      ⟨info, hlook, rfl⟩ | ⟨t, c, f, info, ht, hq, rfl⟩
    · rcases lookup_kept hs hG hlook with hkept | ⟨t, c, ch, x, g, rfl⟩ |
        ⟨t, c, info', ch, x, g, rfl⟩
      · exact .inl ⟨info, hkept, rfl⟩
      · obtain ⟨q, hq, hok, hnext⟩ := hK.exists_session hs (by simp) (by simp)
        obtain ⟨f, ht⟩ := hs.op_live
        rcases hok with rfl | ⟨info', rfl, -⟩
        · refine .inr ⟨t, c, f, info, hlive ht, ?_, rfl⟩
          obtain ⟨g', hx⟩ := exec_world hs
          have hreply : x = some info := (World.exec_popStreamLocksInfo hx).1.trans hlook
          rw [Contract.track_op_self ht.lt_length]
          refine Eq.trans hnext ?_
          rw [hreply]
          rfl
        · -- an extender could only pop its own record, which is not there any more
          have hparts : (γ.work t).on Impl.Session.parts = some info' :=
            Work.on_of_session rfl hq rfl
          exact absurd (hA.2 _ rfl info' hparts info hlook)
            (hK.parts t c f ht info' hparts _ info hlook)
      · cases (hA.1 _ rfl).symm.trans hlook
    · exact .inr ⟨t, c, f, info, hlive ht, hK.popped_step hs hG ht hq hpend, rfl⟩
  · obtain ⟨t, c, name, info, ch, x, g, rfl, rfl⟩ := Tally.takes_eq_some (Option.mem_toList.1 hl)
    obtain ⟨-, hname, -⟩ := hK.locks_of_put hs
    obtain ⟨g', hx⟩ := exec_world hs
    refine .inl ⟨info, ?_, rfl⟩
    rw [World.exec_putStreamLocks hx, hname]
    simp [World.setClient]

/-- **Every event keeps the invariant.** -/
theorem step (hA : KeepsRecords γ P e) : Placed P' (γ.update P e) :=
  ⟨hK.toBooked.step hs hG, fun _ ↦ hK.pending_step hs hG hA⟩

end

/-- When `Done` has returned nil and nobody finishes a stream, nothing is pending. -/
theorem not_stillPending (hK : Placed P γ) {t : Nat}
    (hdone : P.threads[t]? = some ⟨(), .done, some (.ret (.inl (.done none)))⟩)
    (hover : ∀ u c f, P.Live u c f → f.finishes = true → P.isOver u = true) {l : LBSInfo}
    (hl : l ∈ γ.announced) : ¬ StillPending r.client P.state.world.server l := by
  have hexit : γ.work t = .done [] .over := hK.obeying t _ _ hdone rfl
  intro hpend
  rcases hK.pending l (hK.announced l hl) hpend with ⟨info, hlook, -⟩ | ⟨u, c, f, info, hu, hq, -⟩
  · exact absurd (hK.todo t () .done ⟨_, hdone⟩ [] _ hexit _ info hlook) List.not_mem_nil
  · have hover := hover u c f hu (hK.finishes_of_popped hu hq)
    rw [hK.not_isOver_of_popped hu hq] at hover
    cases hover

end Placed

/-! ### Streams that are recorded anew -/

namespace Kept

theorem init (h₀ : Unused P) : Kept P .new :=
  ⟨.init h₀, fun t c f hl ↦ absurd hl (h₀.not_live t c f)⟩

section

variable (hK : Kept P γ) (hs : Pool.Step P e P') (hA : RecordsAnew γ P e)

include hK hs hA

omit hK hs in
/-- Nobody looks after a stream that is being recorded. -/
theorem not_tends_of_put {t : Nat} {c : Unit} {name : String} {info : StreamLocksInfo}
    {ch : Choice} {x : Unit} {g : Option Call}
    (he : e = .op (M := machine J r) t c (.client (.putStreamLocks name info)) ch x g)
    {u : Nat} {d : Unit} {f : Call} (hu : P.Live u d f) (hover : P.isOver u = false)
    {info' : StreamLocksInfo} (h : (γ.work u).on Impl.Session.tends = some info') :
    info'.lbsInfo.dataStreamName ≠ name := by
  subst he
  exact (hA _ rfl).2 u hu.lt_length hover info' h

/-- Where streams are recorded anew, every record keeps its place. -/
theorem keepsRecords : KeepsRecords γ P e := by
  cases e with
  | op t c o ch x g =>
    refine ⟨fun p hp ↦ (hA p hp).1, fun name hpop info hparts record hlook ↦ ?_⟩
    obtain rfl := Op.eq_of_pops hpop
    obtain ⟨q, hq, hok, -⟩ := hK.exists_session hs (by simp) (by simp)
    obtain ⟨f, ht⟩ := hs.op_live
    rcases hok with rfl | ⟨info', rfl, rfl⟩
    · -- `Done` and `DoneStream` are no extenders
      rcases hq with hq | ⟨hq, -⟩ <;>
      · rw [Work.on, hq] at hparts
        cases hparts
    · have hown : (γ.work t).on Impl.Session.parts = some info' := Work.on_of_session rfl hq rfl
      obtain rfl := Option.some.inj (hown.symm.trans hparts)
      exact hK.tends t c f ht (Pool.isOver_of_op hs) info' (Work.tends_of_parts hparts) record hlook
  | _ => trivial

theorem tends_step (hG : Ordinary P e) {t : Nat} {c : Unit} {f : Call}
    (hl : P'.Live t c f) (hover : P'.isOver t = false) {info : StreamLocksInfo}
    (h : ((works J r).track γ.work P e t).on Impl.Session.tends = some info)
    {record : StreamLocksInfo} (hlook : (P'.state.world.clients 0).streamLocks.lookup
      info.lbsInfo.dataStreamName = some record) : record.lbsInfo = info.lbsInfo := by
  have hkeep {u : Nat} {d : Unit} {f : Call} (hu : P.Live u d f) (hover : P.isOver u = false)
      (htends : (γ.work u).on Impl.Session.tends = some info) : record.lbsInfo = info.lbsInfo := by
    rcases lookup_step hs hG hlook with hold | ⟨v, d', ch, x, g, he⟩
    · exact hK.tends u d f hu hover info htends record hold
    · exact absurd rfl (not_tends_of_put hA he hu hover htends)
  rcases on_step rfl hK.obeying hs hl h with ⟨hl, htends⟩ | ⟨o, ch, x, g, q, rfl, hl, hq, hok, ha⟩ |
    ⟨-, hst, ha⟩
  · exact hkeep hl (Pool.isOver_step hs hl.lt_length hover) htends
  · rcases Impl.Session.tends_next hok ha with hold | ⟨-, rfl⟩
    · exact hkeep hl (Pool.isOver_of_op hs) (Work.on_of_session rfl hq hold)
    · rcases lookup_step hs hG hlook with hold | ⟨v, d, ch', x', g', heq⟩
      · rw [(hA _ rfl).1] at hold
        cases hold
      · cases heq
        rfl
  · obtain ⟨u, d, g, hu, hover, htends⟩ := hK.tends_of_start hs hG hst ha
    exact hkeep hu hover htends

/-- **Every event keeps the invariant.** -/
theorem step (hG : Ordinary P e) : Kept P' (γ.update P e) :=
  ⟨hK.toPlaced.step hs hG (hK.keepsRecords hs hA),
    fun _ _ _ hl hover _ h _ ↦ hK.tends_step hs hA hG hl hover h⟩

end

theorem of_run {P₀ : Pool (machine J r)} (h₀ : Unused P₀)
    (hrun : Pool.Run Tally.update (fun γ P e ↦ Ordinary P e ∧ RecordsAnew γ P e) (P₀, .new) P γ) :
    Kept P γ :=
  hrun.invariant (Kept.init h₀) fun _ _ _ _ hK hg hs ↦ hK.step hs hg.2 hg.1

end Kept

/-! ## Nothing is left -/

/-- **`Done` acknowledges what the client took.**  From a client that was just created, however its
calls and goroutines interleave, where commands succeed, no lock expires, every record keeps its
place and none is made once `Done` is called: when `Done` has returned nil, and nobody is in `Done`
or `DoneStream` any more, no entry that was announced by a `StreamAdded` notification is pending. -/
theorem done_acknowledges_taken {P₀ : Pool (machine J r)} (h₀ : Unused P₀)
    (hrun : Pool.Run Tally.update (fun γ P e ↦ Ordinary P e ∧ KeepsRecords γ P e) (P₀, .new) P γ)
    {t : Nat} (hdone : P.threads[t]? = some ⟨(), .done, some (.ret (.inl (.done none)))⟩)
    (hover : ∀ u c f, P.Live u c f → f.finishes = true → P.isOver u = true) :
    ∀ l ∈ γ.announced, ¬ StillPending r.client P.state.world.server l := by
  have hK : Placed P γ :=
    hrun.invariant (Placed.init h₀) fun _ _ _ _ hK hg hs ↦ hK.step hs hg.1 hg.2
  exact fun _ hl ↦ hK.not_stillPending hdone hover hl

/-- **`Done` leaves nothing behind.**  From a client that was just created, however its calls and
goroutines interleave, where commands succeed, no lock expires, streams are recorded anew and none
is recorded once `Done` is called: when `Done` has returned nil, and nobody is in `Done` or
`DoneStream` any more, no entry that was announced by a `StreamAdded` notification is pending. -/
theorem done_leaves_nothing {P₀ : Pool (machine J r)} (h₀ : Unused P₀)
    (hrun : Pool.Run Tally.update (fun γ P e ↦ Ordinary P e ∧ RecordsAnew γ P e) (P₀, .new) P γ)
    {t : Nat} (hdone : P.threads[t]? = some ⟨(), .done, some (.ret (.inl (.done none)))⟩)
    (hover : ∀ u c f, P.Live u c f → f.finishes = true → P.isOver u = true) :
    ∀ l ∈ γ.announced, ¬ StillPending r.client P.state.world.server l :=
  fun _ hl ↦ (Kept.of_run h₀ hrun).not_stillPending hdone hover hl

/-- That nobody finishes a stream any more can be read off the threads. -/
theorem isOver_of_finishes (h : ∀ u < P.threads.length,
    P.threads[u]?.any (fun th ↦ th.call.finishes) = true → P.isOver u = true) :
    ∀ u c f, P.Live u c f → f.finishes = true → P.isOver u = true := by
  rintro u c f ⟨p, hp⟩ hf
  refine h u (List.getElem?_eq_some_iff.1 hp).1 ?_
  rw [hp]
  exact hf

/-- An ordinary event of the client itself. -/
def Inside (P : Pool (machine J r)) (e : Event (machine J r)) : Prop :=
  (∀ v, e ≠ .env v) ∧ Ordinary P e

instance (P : Pool (machine J r)) : DecidablePred (Inside P)
  | .op _ _ o ch _ _ => @decidable_of_iff _ (ch.base.fault = .none ∧
      (o.records.isSome = true → ∀ th ∈ P.threads, th.call.isDone = false))
      ⟨fun h ↦ ⟨by simp, h⟩, fun h ↦ h.2⟩
      (@instDecidableAnd _ _ (instDecidableFaultNone ch.base) (inferInstanceAs (Decidable
        (o.records.isSome = true → ∀ th ∈ P.threads, th.call.isDone = false))))
  | .start _ f => @decidable_of_iff _ (f.isDone = true ∨ f.isSetup = true)
      ⟨fun h ↦ ⟨by simp, h⟩, fun h ↦ h.2⟩
      (inferInstanceAs (Decidable (f.isDone = true ∨ f.isSetup = true)))
  | .again _ => .isTrue ⟨by simp, trivial⟩
  | .env v => .isFalse fun h ↦ h.1 v rfl
  | .crash _ => .isFalse fun h ↦ h.2

instance (γ : Tally) (P : Pool (machine J r)) : DecidablePred (RecordsAnew γ P)
  | .op _ _ o _ _ _ => inferInstanceAs (Decidable (∀ p ∈ o.records,
      (P.state.world.clients 0).streamLocks.lookup p.1 = none ∧
        ∀ t < P.threads.length, P.isOver t = false →
          ∀ info ∈ (γ.work t).on Impl.Session.tends, info.lbsInfo.dataStreamName ≠ p.1))
  | .again _ | .start _ _ | .env _ | .crash _ => .isTrue trivial

instance (γ : Tally) (P : Pool (machine J r)) : DecidablePred (KeepsRecords γ P)
  | .op _ _ _ _ _ _ => inferInstanceAs (Decidable (_ ∧ _))
  | .again _ | .start _ _ | .env _ | .crash _ => .isTrue trivial

end

namespace Demo

/-- A client before `Init`, with the entries `1-0` and `2-0` in its LBS. -/
def given (first second : String) : Pool shardMachine where
  state := { unstarted.state with
    world := ((Pool.schedule (fun _ _ _ ↦ ()) (fun _ _ _ ↦ True)
      [Impl.Demo.produce 1 first, Impl.Demo.produce 2 second]
        (Impl.Demo.idle, ())).elim Impl.Demo.idle Prod.fst).state }
  threads := []

theorem unused_given (first second : String) : Unused (given first second) := ⟨rfl, rfl, rfl⟩

/-- A goroutine sees that the broker is quitting. -/
def quitting (t : Nat) : Pool.Label shardMachine := .op t ⟨⟨.none, .zero, 0, .quit⟩, "", none, []⟩

/-- The user calls `Done`, which finds these streams. -/
def calledDone (t : Nat) (names : List String) : List (Pool.Label shardMachine) :=
  [.start () .done, .op t ⟨.plain, "", none, names⟩] ++ opsOf t (6 * names.length) ++
    [.again t] ++ opsOf t 3 ++
    [quitting 0, .again 0] ++ opsOf 0 2 ++ [.again 0] ++ opsOf 0 2 ++ [.again 0] ++ opsOf 0 3 ++
    opsOf t 6

/-- The client takes both entries, and its user calls `Done`, which finds these streams. -/
def takenThenDone (names : List String) : List (Pool.Label shardMachine) :=
  [.start () (.client (.broker .run)), .start () .init] ++ opsOf 1 10 ++ opsOf 3 16 ++
    calledDone 8 names

/-- The client takes both entries, and its user calls `DoneStream` for the first of them before
the second is recorded, and then `Done`.  The extender of the first is still there. -/
def takenOneByOne : List (Pool.Label shardMachine) :=
  [.start () (.client (.broker .run)), .start () .init] ++ opsOf 1 10 ++ opsOf 3 9 ++
    [.start () (.client (.doneStream "orders"))] ++ opsOf 7 6 ++ opsOf 3 7 ++
    calledDone 9 ["orders"]

theorem distinct_isSome : (Pool.schedule Tally.update (fun γ P e ↦ Inside P e ∧ RecordsAnew γ P e)
    (takenThenDone ["orders", "users"]) (given "orders" "users", .new)).isSome = true := by
  decide +kernel

/-- `Done` has returned, and the entries were of distinct streams. -/
def distinct : Pool shardMachine × Tally :=
  (Pool.schedule Tally.update (fun γ P e ↦ Inside P e ∧ RecordsAnew γ P e)
    (takenThenDone ["orders", "users"]) (given "orders" "users", .new)).get distinct_isSome

theorem oneByOne_isSome : (Pool.schedule Tally.update (fun γ P e ↦ Inside P e ∧ KeepsRecords γ P e)
    takenOneByOne (given "orders" "orders", .new)).isSome = true := by
  decide +kernel

/-- `Done` has returned, and the entries were of one stream, one after the other. -/
def oneByOne : Pool shardMachine × Tally :=
  (Pool.schedule Tally.update (fun γ P e ↦ Inside P e ∧ KeepsRecords γ P e)
    takenOneByOne (given "orders" "orders", .new)).get oneByOne_isSome

theorem same_isSome : (Pool.schedule Tally.update (fun _ P e ↦ Inside P e)
    (takenThenDone ["orders"]) (given "orders" "orders", .new)).isSome = true := by
  decide +kernel

/-- `Done` has returned, and both entries were of one stream. -/
def same : Pool shardMachine × Tally :=
  (Pool.schedule Tally.update (fun _ P e ↦ Inside P e)
    (takenThenDone ["orders"]) (given "orders" "orders", .new)).get same_isSome

end Demo

/-- Where the first entry is finished before the second is recorded, both are acknowledged. -/
theorem done_acknowledges_taken_in_turn :
    Demo.oneByOne.2.announced = [⟨"orders", "1-0"⟩, ⟨"orders", "2-0"⟩] ∧
      ∀ l ∈ Demo.oneByOne.2.announced,
        ¬ StillPending Demo.shard.client Demo.oneByOne.1.state.world.server l := by
  have hdone : returnedNil Demo.oneByOne.1 9 = true := by decide +kernel
  have hover : ∀ u < Demo.oneByOne.1.threads.length,
      Demo.oneByOne.1.threads[u]?.any (fun th ↦ th.call.finishes) = true →
        Demo.oneByOne.1.isOver u = true := by
    decide +kernel
  refine ⟨by decide +kernel, done_acknowledges_taken (Demo.unused_given "orders" "orders")
    ((Pool.run_of_isSome Demo.oneByOne_isSome).mono fun _ _ _ h ↦ ⟨h.1.2, h.2⟩)
    (eq_of_returnedNil hdone) ?_⟩
  exact isOver_of_finishes hover

/-- Where the streams are distinct, `Done` acknowledges both entries. -/
theorem done_leaves_nothing_distinct :
    Demo.distinct.2.announced = [⟨"orders", "1-0"⟩, ⟨"users", "2-0"⟩] ∧
      ∀ l ∈ Demo.distinct.2.announced,
        ¬ StillPending Demo.shard.client Demo.distinct.1.state.world.server l := by
  have hdone : returnedNil Demo.distinct.1 8 = true := by decide +kernel
  have hover : ∀ u < Demo.distinct.1.threads.length,
      Demo.distinct.1.threads[u]?.any (fun th ↦ th.call.finishes) = true →
        Demo.distinct.1.isOver u = true := by
    decide +kernel
  refine ⟨by decide +kernel, done_leaves_nothing (Demo.unused_given "orders" "users")
    ((Pool.run_of_isSome Demo.distinct_isSome).mono fun _ _ _ h ↦ ⟨h.1.2, h.2⟩)
    (eq_of_returnedNil hdone) ?_⟩
  exact isOver_of_finishes hover

/-- Where both entries are of one stream, the record of the first is lost, and `Done` returns nil
and leaves it pending. -/
theorem done_leaves_overwritten :
    Pool.Run Tally.update (fun _ P e ↦ Ordinary P e) (Demo.given "orders" "orders", .new)
        Demo.same.1 Demo.same.2 ∧
      Demo.same.1.threads[8]? = some ⟨(), .done, some (.ret (.inl (.done none)))⟩ ∧
      ⟨"orders", "1-0"⟩ ∈ Demo.same.2.announced ∧
      StillPending Demo.shard.client Demo.same.1.state.world.server ⟨"orders", "1-0"⟩ := by
  have hdone : returnedNil Demo.same.1 8 = true := by decide +kernel
  refine ⟨(Pool.run_of_isSome Demo.same_isSome).mono fun _ _ _ h ↦ h.2,
    eq_of_returnedNil hdone, by decide +kernel, ⟨1, 0⟩, by decide +kernel, by decide +kernel⟩

end RedisStreamClient.Impl.Lifecycle
