import RedisStreamClient.Impl.Knowledge
import RedisStreamClient.Lib.Ledger

/-!
# Conservation of tasks

A *task* is a producer's entry together with every entry re-added from it.  At every
moment it is in exactly one place: an entry of the LBS that is undelivered or pending,
a recoverer between its `XACK` and its `XADD`, a copy in a DLQ, or one of two ends,
finished by a `DoneStream` or lost.

A task is lost when its recoverer acknowledged it and then crashes or fails to add it
again, or when a recoverer acknowledges an ID under which it found nothing.

Every event is a move of the `ledger` of tasks (`refines`), whose moves keep every task in one
place (`Service.Run.wellFormed`).
-/

namespace RedisStreamClient.Impl

open RedisStreamClient.Lib RedisStreamClient.Errs RedisStreamClient.Notifs
open RedisStreamClient.Redis

/-- An entry of the LBS that is undelivered or pending. -/
def Outstanding (V : Service) (s : Server) (i : StreamID) : Prop :=
  (i ∈ V.stream s ∧ (V.pending s).top < i) ∨ i ∈ V.pending s

/-- The tasks of a service: entries of the LBS, held by recoverers between their `XACK`
that returned 1 and their `XADD`, and copied to DLQs. -/
def ledger (V : Service) (P : Pool V.machine) (h : History) :
    Ledger StreamID Nat (String × StreamID) where
  origin := h.origin
  live := {i | Outstanding V P.state.server i}
  holds t := {i | ∃ c f, P.Live t c f ∧ h.held t = some i}
  copies d := if d.2 ∈ P.state.server.streams d.1 then h.dlqOrigin d.1 d.2 else none
  finished := h.finished
  lost := h.lost

/-- Commands fail without effect, if they fail. -/
def NoLostReply {V : Service} : Event V.machine → Prop
  | .op _ _ _ ch _ _ => ∀ e, ch.fault ≠ .lost e
  | _ => True

instance instDecidableNoLostReply {V : Service} (e : Event V.machine) : Decidable (NoLostReply e) :=
  match e with
  | .op _ _ _ ⟨.none, _, _, _⟩ _ _ => .isTrue fun _ ↦ nofun
  | .op _ _ _ ⟨.fail _, _, _, _⟩ _ _ => .isTrue fun _ ↦ nofun
  | .op _ _ _ ⟨.lost e, _, _, _⟩ _ _ => .isFalse fun h ↦ h e rfl
  | .again _ | .env _ | .crash _ | .start _ _ => .isTrue trivial

/-! ## What recoverers hold -/

namespace Session

variable {J : Json} {r : Client} {q : Session} {o : Op}

/-- Only an acknowledgement or an addition changes what a goroutine holds. -/
theorem holding_next (hd : r.recoveryConfig.dlqStream ≠ "") (hok : q.Ok J r o)
    (hack : ∀ s g i, o ≠ .xack s g i) (hadd : ∀ s n v, o ≠ .xadd s n v) (reply : o.Reply) :
    (q.next J r o reply).holding = q.holding := by
  have hnone : ∀ {q : Session}, q.role ≠ .recoverer → q.holding = none := by
    intro q hq
    cases q <;> first | rfl | exact absurd rfl hq
  by_cases hrole : q.role = .recoverer
  swap
  · rw [hnone hrole, hnone (role_next hok reply ▸ hrole)]
  obtain ⟨scope', stage', hn⟩ := exists_recover_of_role ((role_next hok reply).trans hrole)
  obtain ⟨scope, stage, rfl, rfl | ⟨s, i, rfl⟩ | ⟨key, rfl⟩ | ⟨s, g, i, rfl⟩ | ⟨s, n, v, rfl⟩ |
    ⟨s, i, rfl⟩ | ⟨s, rfl⟩⟩ := next_recover hok hn
  · rw [hn]
    rfl
  · obtain ⟨-, -, _, _, hq, hrest, -⟩ := hok
    obtain ⟨rfl, rfl⟩ := recover.inj hq
    have hnew : (Session.recover scope (.onRange i reply)).holding = none := by
      rcases reply with _ | _ | _ <;> rfl
    have hold : (Session.recover scope stage).holding = none := by
      cases stage <;> first | rfl | exact hrest.elim
    exact hnew.trans hold.symm
  · obtain ⟨_, e, name, hq, hname, -⟩ := hok
    obtain ⟨rfl, rfl⟩ := recover.inj hq
    rcases reply with _ | k
    · rfl
    · show (Session.recover scope (Stage.onExists J (.found e) (.ok k))).holding = none
      by_cases hk : 0 < k <;> simp [Stage.onExists, hname, hk, holding, Stage.holding]
  · exact absurd rfl (hack s g i)
  · exact absurd rfl (hadd s n v)
  · obtain ⟨-, ⟨_, _, hq, hdel⟩ | ⟨i, hq, -⟩⟩ := hok
    · obtain ⟨rfl, rfl⟩ := recover.inj hq
      cases stage with
      | added e toDLQ => rfl
      | won e name => exact absurd hdel.1 hd
      | _ => exact hdel.elim
    · cases hq
  · obtain ⟨_, e, hq⟩ := hok
    obtain ⟨rfl, rfl⟩ := recover.inj hq
    rfl

/-- After an addition a goroutine holds nothing. -/
theorem holding_onAdd (h : ∃ scope stage, q = .recover scope stage) (reply : Except Err String) :
    (q.onStage (·.onAdd r reply)).holding = none := by
  obtain ⟨scope, stage, rfl⟩ := h
  cases stage <;> rcases reply with _ | _ <;> rfl

/-- Before an acknowledgement a goroutine holds nothing. -/
theorem holding_of_okAck {stream group id : String} (hok : q.Ok J r (.xack stream group id)) :
    q.holding = none := by
  obtain ⟨-, -, ⟨scope, stage, rfl, hack⟩ | ⟨info, rfl, -⟩⟩ := hok
  · cases stage with
    | missing _ | found _ | dead _ _ => rfl
    | _ => exact hack.elim
  · rfl

/-- After one that did not count it still holds nothing. -/
theorem holding_onAck {stream group id : String} (hok : q.Ok J r (.xack stream group id))
    {reply : Except Err Int} (hzero : ∀ k, reply = .ok k → k = 0) :
    (q.onAck reply).holding = none := by
  obtain ⟨-, -, ⟨scope, stage, rfl, hack⟩ | ⟨info, rfl, -⟩⟩ := hok <;> rcases reply with err | k
  · cases stage <;> rfl
  · obtain rfl := hzero k rfl
    cases stage <;> rfl
  · rfl
  · rfl

/-- After one that counted it holds the entry it named. -/
theorem holding_onAck_eq {stream group id : String} (hok : q.Ok J r (.xack stream group id))
    {reply : Except Err Int} {i : StreamID} (hi : (q.onAck reply).holding = some i) :
    StreamID.ofText? id = some i := by
  obtain ⟨-, -, ⟨scope, stage, rfl, hack⟩ | ⟨info, rfl, -⟩⟩ := hok <;> rcases reply with err | k
  · cases stage <;> simp [onAck, onStage, Stage.onAck, holding, Stage.holding] at hi
  · by_cases hk : k = 0
    · cases stage <;> simp [onAck, onStage, Stage.onAck, holding, Stage.holding, hk] at hi
    · cases stage with
      | found e =>
        obtain ⟨rfl, -⟩ := hack
        simpa [onAck, onStage, Stage.onAck, holding, Stage.holding, hk] using hi
      | dead e name =>
        obtain rfl : id = e.id := hack
        simpa [onAck, onStage, Stage.onAck, holding, Stage.holding, hk] using hi
      | _ => simp [onAck, onStage, Stage.onAck, holding, Stage.holding] at hi
  · simp [onAck, holding] at hi
  · simp [onAck, holding] at hi

theorem holding_start (f : Call) : (start f).holding = none := by cases f <;> rfl

end Session

section Holds

variable {V : Service} {h : History} {P P' : Pool V.machine} {e : Event V.machine}

/-- A live recoverer holds what its session says. -/
theorem holds_of_live {t c : Nat} {f : Call} (hl : P.Live t c f) :
    (ledger V P h).holds t = {i | (h.session t).holding = some i} := by
  ext i
  exact ⟨fun ⟨_, _, _, hi⟩ ↦ hi, fun hi ↦ ⟨c, f, hl, hi⟩⟩

/-- An operation changes at most what the goroutine that performs it holds. -/
theorem holds_op {t c : Nat} {o : Op} {ch : Choice} {r : o.Reply} {g : Option Call}
    (hs : Pool.Step P (.op (M := V.machine) t c o ch r g) P') :
    (ledger V P' (h.update V P (.op (M := V.machine) t c o ch r g))).holds =
      Function.update (ledger V P h).holds t
        {i | ((h.session t).next V.json (V.client c) o r).holding = some i} := by
  obtain ⟨f, hl⟩ := hs.op_live
  have hmove : ∀ {u}, u ≠ t → (Event.op (M := V.machine) t c o ch r g).mover ≠ some u :=
    fun hu h ↦ hu (Option.some.inj h).symm
  funext u
  by_cases hu : u = t
  · subst hu
    have hl' : P'.Live u c f := hs.live_iff.2 (.inl ⟨hl, by simp⟩)
    rw [Function.update_self, holds_of_live hl', History.session_op hl.lt_length]
  · rw [Function.update_of_ne hu]
    ext i
    constructor
    · rintro ⟨d, f', hl', hi⟩
      rcases hs.live_iff.1 hl' with ⟨hlu, -⟩ | ⟨rfl, hst⟩
      · refine ⟨d, f', hlu, ?_⟩
        rwa [History.held, History.session_of_mover_ne hlu.lt_length (hmove hu)] at hi
      · -- a new goroutine holds nothing
        rw [History.held, History.session_starts hst, Session.holding_start] at hi
        simp at hi
    · rintro ⟨d, f', hlu, hi⟩
      refine ⟨d, f', hs.live_iff.2 (.inl ⟨hlu, by simp⟩), ?_⟩
      rwa [History.held, History.session_of_mover_ne hlu.lt_length (hmove hu)]

/-- Any other event changes it only by a crash. -/
theorem holds_other (hs : Pool.Step P e P') (hop : e.mover = none) :
    (ledger V P' (h.update V P e)).holds =
      fun t ↦ {i ∈ (ledger V P h).holds t | ∀ c f, P.Live t c f → e ≠ .crash c} := by
  funext u
  ext i
  have hsess : u < P.threads.length → (h.update V P e).session u = h.session u := fun hu ↦
    History.session_of_mover_ne hu (by simp [hop])
  constructor
  · rintro ⟨d, f, hl, hi⟩
    rcases hs.live_iff.1 hl with ⟨hlu, hc⟩ | ⟨rfl, hst⟩
    · refine ⟨⟨d, f, hlu, ?_⟩, ?_⟩
      · rwa [History.held, hsess hlu.lt_length] at hi
      · rintro c f' hl'
        rwa [(hlu.unique hl').1] at hc
    · rw [History.held, History.session_starts hst, Session.holding_start] at hi
      simp at hi
  · rintro ⟨⟨d, f, hlu, hi⟩, hc⟩
    refine ⟨d, f, hs.live_iff.2 (.inl ⟨hlu, hc d f hlu⟩), ?_⟩
    rwa [History.held, hsess hlu.lt_length]

end Holds

/-! ## The DLQs -/

section DLQ

variable {V : Service} {h : History} {P P' : Pool V.machine} {e : Event V.machine}

/-- **What an event can do to another stream than the LBS**, if no DLQ is capped: nothing,
or add one entry. -/
theorem other_stream (hcap : ∀ c, (V.client c).recoveryConfig.dlqMaxLen = 0)
    (hob : V.contract.Obeying P h.session) (hs : Pool.Step P e P') {name : String}
    (hne : name ≠ V.lbs) :
    (P'.state.server.streams name = P.state.server.streams name ∧
      ∀ i x, h.copyAdded V e ≠ some (name, i, x)) ∨
    ∃ i v hlt, P'.state.server.streams name = (P.state.server.streams name).push i v hlt ∧
      ∀ j x, h.copyAdded V e = some (name, j, x) → j = i := by
  cases e with
  | op t c o ch r f =>
    have hok : (h.session t).Ok V.json (V.client c) o := hob.ok hs
    have hx : World.exec c o ch P.state = some (r, P'.state, f) := hs.op_exec
    by_cases hadd : ∃ s n v, o = .xadd s n v
    · obtain ⟨stream, maxLen, v, rfl⟩ := hadd
      obtain ⟨scope, stage, -, hst⟩ := hok
      obtain ⟨-, ⟨hf, heq, -⟩ | ⟨hf, r', s, hr, heq, -⟩⟩ := World.exec_xadd hx
      · exact .inl ⟨by rw [heq], by simp [History.copyAdded, hf]⟩
      rcases hst.target with ⟨hstream, -⟩ | ⟨hstream, hmax⟩
      · rw [V.lbsName_eq] at hstream
        subst hstream
        refine .inl ⟨?_, by simp [History.copyAdded]⟩
        rw [heq]
        exact (Server.xadd_other hr).2 name hne
      · have hlbs : stream ≠ V.lbs := hstream ▸ V.dlqStream_ne_lbs c
        rw [hmax, hcap] at hr
        obtain ⟨hlt, rfl, -⟩ := Server.xadd_uncapped hr
        by_cases hn : name = stream
        · subst hn
          refine .inr ⟨ch.newID, v, hlt, by simp [heq, Server.setStream], ?_⟩
          rintro j x hj
          simp only [History.copyAdded, hlbs, hf, ne_eq, not_false_eq_true, and_self, if_true,
            Option.some.injEq, Prod.mk.injEq] at hj
          exact hj.2.1.symm
        · refine .inl ⟨by simp [heq, Server.setStream, Function.update_of_ne hn], ?_⟩
          intro i x hi
          simp only [History.copyAdded, hlbs, hf, ne_eq, not_false_eq_true, and_self, if_true,
            Option.some.injEq, Prod.mk.injEq] at hi
          exact hn hi.1.symm
    · have hnone : h.copyAdded V (.op (M := V.machine) t c o ch r f) = none := by
        cases o with
        | xadd s n v => exact absurd ⟨s, n, v, rfl⟩ hadd
        | _ => rfl
      refine .inl ⟨World.exec_streams hx (fun n v h ↦ hadd ⟨_, n, v, h⟩) ?_, by simp [hnone]⟩
      rintro i rfl
      exact hne (hok.1.trans (V.lbsName_eq c))
  | again t =>
    cases hs with
    | again ht hp => exact .inl ⟨rfl, by simp [History.copyAdded]⟩
  | start c f =>
    cases hs with
    | start => exact .inl ⟨rfl, by simp [History.copyAdded]⟩
  | env e =>
    cases hs with
    | env he =>
      cases e with
      | produce stream i v =>
        obtain ⟨⟨r, s⟩, hr, rfl⟩ := Option.map_eq_some_iff.1 he
        obtain ⟨hlt, rfl, -⟩ := Server.xadd_uncapped hr
        by_cases hn : name = stream
        · subst hn
          exact .inr ⟨i, v, hlt, by simp [Server.setStream], by simp [History.copyAdded]⟩
        · refine .inl ⟨?_, by simp [History.copyAdded]⟩
          simp [Server.setStream, Function.update_of_ne hn]
      | expire key =>
        obtain rfl := Option.some.inj he
        exact .inl ⟨rfl, by simp [History.copyAdded]⟩
      | tick ms =>
        obtain rfl := Option.some.inj he
        exact .inl ⟨rfl, by simp [History.copyAdded]⟩
      | cancel c =>
        obtain rfl := Option.some.inj he
        exact .inl ⟨rfl, by simp [History.copyAdded]⟩
  | crash c =>
    cases hs with
    | crash => exact .inl ⟨rfl, by simp [History.copyAdded]⟩

/-- A copy is not in the LBS. -/
theorem History.ne_lbs_of_copyAdded {name : String} {i : StreamID} {x : Option StreamID}
    (hcopy : h.copyAdded V e = some (name, i, x)) : name ≠ V.lbs := by
  cases e with
  | op t c o ch r f =>
    cases o with
    | xadd stream maxLen v =>
      simp only [History.copyAdded] at hcopy
      split at hcopy
      · next hc =>
        obtain ⟨rfl, -⟩ := Prod.mk.inj (Option.some.inj hcopy)
        exact hc.1
      · cases hcopy
    | _ => cases hcopy
  | _ => cases hcopy

/-- Only the added copy has a new origin. -/
theorem History.dlqOrigin_update {name : String} {i : StreamID} {x : Option StreamID}
    (hcopy : h.copyAdded V e = some (name, i, x)) (d : String × StreamID) :
    (h.update V P e).dlqOrigin d.1 d.2 =
      Function.update (fun d : String × StreamID ↦ h.dlqOrigin d.1 d.2) (name, i) x d := by
  simp only [History.update, hcopy]
  by_cases hn : d.1 = name
  · by_cases hi : d.2 = i
    · obtain rfl : d = (name, i) := Prod.ext hn hi
      simp
    · have hd : d ≠ (name, i) := fun hd ↦ hi (congrArg Prod.snd hd)
      simp [hn, hi, hd]
  · have hd : d ≠ (name, i) := fun hd ↦ hn (congrArg Prod.fst hd)
    simp [hn, hd]

end DLQ

/-! ## Bounds -/

/-- Only IDs that were assigned occur in the history. -/
structure Bounded (V : Service) (P : Pool V.machine) (h : History) : Prop where
  /-- Entries with an origin were added to the LBS. -/
  origin_le : ∀ i x, h.origin i = some x → i ≤ (V.stream P.state.server).top
  /-- So were those that were finished or lost. -/
  ended_le : ∀ i, i ∈ h.finished ∨ i ∈ h.lost → i ≤ (V.stream P.state.server).top
  /-- Copies are in their DLQ. -/
  copy_mem : ∀ name i x, h.dlqOrigin name i = some x →
    name ≠ V.lbs ∧ i ∈ P.state.server.streams name

section Bounded

variable {V : Service} {h : History} {P P' : Pool V.machine} {e : Event V.machine}

/-- What is held was delivered. -/
theorem Sound.held_settled (hS : Sound V P h) {t c : Nat} {f : Call} {i : StreamID}
    (hl : P.Live t c f) (hi : h.held t = some i) : Settled V P.state.server i := by
  obtain ⟨scope, entry, name, hq, hid⟩ := Session.exists_won_of_holding hi
  have hkn := hS.knows _ _ _ hl
  rw [hq] at hkn
  obtain ⟨⟨j, hj, hset, -⟩, -⟩ := hkn
  obtain rfl : j = i := Option.some.inj (hj.symm.trans hid)
  exact hset

theorem Sound.acks_le (hS : Sound V P h) {t : Nat} {i : StreamID}
    (hack : History.Acks V P t i e) : i ≤ (V.stream P.state.server).top :=
  Log.le_top_of_mem (hS.pending_sub i hack.pending)

theorem Sound.loses_le (hS : Sound V P h) (hs : Pool.Step P e P') {i : StreamID}
    (hl : h.Loses V P i e) : i ≤ (V.stream P.state.server).top := by
  cases e with
  | op t c o ch r f =>
    cases o with
    | xadd stream maxLen v =>
      obtain ⟨f', hlive⟩ := hs.op_live
      exact (hS.held_settled hlive hl.1).1.trans hS.delivered_le
    | _ =>
      obtain ⟨t', scope, id, hack, -⟩ := hl
      exact hS.acks_le hack
  | crash c =>
    obtain ⟨t, f, hlive, hi⟩ := hl
    exact (hS.held_settled hlive hi).1.trans hS.delivered_le
  | _ =>
    obtain ⟨t', scope, id, hack, -⟩ := hl
    exact hS.acks_le hack

theorem Bounded.origin_le_step (hB : Bounded V P h) (hch : Change V h P e P'.state.server)
    {i x : StreamID} (hi : (h.update V P e).origin i = some x) :
    i ≤ (V.stream P'.state.server).top := by
  have hold (hi : h.origin i = some x) : i ≤ (V.stream P'.state.server).top :=
    (hB.origin_le i x hi).trans hch.grows.top_le
  cases hch with
  | push j v y hlt hst hp hadd =>
    by_cases hij : i = j
    · -- a new origin is that of the entry just added
      subst hij
      rw [hst]
      exact le_rfl
    · simp only [History.update, hadd, Function.update_of_ne hij] at hi
      exact hold hi
  | same _ _ hadd | del _ _ _ _ _ _ _ hadd | ack _ _ _ _ _ hadd | deliver _ _ _ _ hadd =>
    exact hold (by simpa [History.update, hadd] using hi)

theorem Bounded.ended_le_step (hB : Bounded V P h) (hS : Sound V P h) (hs : Pool.Step P e P')
    {i : StreamID} (hi : i ∈ (h.update V P e).finished ∨ i ∈ (h.update V P e).lost) :
    i ≤ (V.stream P.state.server).top := by
  rcases hi with (hi | ⟨t, info, hack, -⟩) | (hi | hi)
  · exact hB.ended_le i (.inl hi)
  · exact hS.acks_le hack
  · exact hB.ended_le i (.inr hi)
  · exact hS.loses_le hs hi

theorem Bounded.copy_mem_step (hcap : ∀ c, (V.client c).recoveryConfig.dlqMaxLen = 0)
    (hS : Sound V P h) (hB : Bounded V P h) (hs : Pool.Step P e P') {name : String}
    {i x : StreamID} (hi : (h.update V P e).dlqOrigin name i = some x) :
    name ≠ V.lbs ∧ i ∈ P'.state.server.streams name := by
  have hold (hi : h.dlqOrigin name i = some x) :
      name ≠ V.lbs ∧ i ∈ P'.state.server.streams name := by
    obtain ⟨hne, hm⟩ := hB.copy_mem name i x hi
    refine ⟨hne, ?_⟩
    rcases other_stream hcap hS.obeying hs hne with ⟨heq, -⟩ | ⟨k, v, hlt, heq, -⟩
    · rwa [heq]
    · rw [heq, Log.mem_push]
      exact .inl hm
  cases hcopy : h.copyAdded V e with
  | none => exact hold (by simpa [History.update, hcopy] using hi)
  | some d =>
    obtain ⟨name', j, y⟩ := d
    rw [History.dlqOrigin_update hcopy (name, i)] at hi
    by_cases hd : ((name, i) : String × StreamID) = (name', j)
    · obtain ⟨rfl, rfl⟩ := Prod.mk.inj hd
      have hne := History.ne_lbs_of_copyAdded hcopy
      refine ⟨hne, ?_⟩
      rcases other_stream hcap hS.obeying hs hne with ⟨-, hno⟩ | ⟨k, v, hlt, heq, hk⟩
      · exact absurd hcopy (hno i y)
      · rw [heq, Log.mem_push]
        exact .inr (hk i y hcopy)
    · rw [Function.update_of_ne hd] at hi
      exact hold hi

theorem Bounded.step (hcap : ∀ c, (V.client c).recoveryConfig.dlqMaxLen = 0) (hS : Sound V P h)
    (hB : Bounded V P h) (hs : Pool.Step P e P') : Bounded V P' (h.update V P e) where
  origin_le _ _ hi := hB.origin_le_step (change hS.obeying hs) hi
  ended_le _ hi := (hB.ended_le_step hS hs hi).trans (change hS.obeying hs).grows.top_le
  copy_mem _ _ _ hi := hB.copy_mem_step hcap hS hs hi

end Bounded

/-! ## Refinement -/

section Refines

variable {V : Service} {h : History} {P P' : Pool V.machine} {e : Event V.machine}

/-- Unless an entry is added or acknowledged, the same entries are outstanding. -/
theorem outstanding_quiet (hS : Sound V P h) (hs : Pool.Step P e P')
    (hadd : h.entryAdded V e = none) (hack : ∀ t i, ¬ History.Acks V P t i e) (i : StreamID) :
    Outstanding V P'.state.server i ↔ Outstanding V P.state.server i := by
  cases change hS.obeying hs with
  | same hst hp => rw [Outstanding, Outstanding, hst, hp]
  | push j v x hlt hst hp hadd' => simp [hadd'] at hadd
  | del t j id hid he hst hp =>
    obtain ⟨c, ch, r, f, rfl⟩ := he
    have hset := hS.settled_of_xdel hs hid
    rw [Outstanding, Outstanding, hst, hp, Log.mem_erase]
    refine or_congr_left ⟨fun h ↦ ⟨h.1.1, h.2⟩, fun h ↦ ⟨⟨h.1, ?_⟩, h.2⟩⟩
    rintro rfl
    exact absurd h.2 hset.1.not_gt
  | ack t j hj => exact absurd hj (hack t j)
  | deliver n hout hst hp =>
    have hmem : ∀ {j}, j ∈ V.stream P.state.server → (V.pending P.state.server).top < j →
        ∃ d, (j, d) ∈ P.state.server.handedTo V.lbs V.group n := by
      rintro j ⟨v, hv⟩ hlt
      exact ⟨_, List.mem_map.2 ⟨(j, v), List.mem_filter.2 ⟨hv, decide_eq_true hlt⟩, rfl⟩⟩
    rw [Outstanding, Outstanding, hst, hp, Server.deliver, Log.mem_append]
    constructor
    · rintro (⟨hin, hlt⟩ | hin | ⟨d, hd⟩)
      · exact .inl ⟨hin, lt_of_le_of_lt Log.le_top_append hlt⟩
      · exact .inr hin
      · obtain ⟨d', hd', heq⟩ := List.mem_map.1 hd
        obtain ⟨rfl, -⟩ := Prod.mk.inj heq
        exact .inl ⟨⟨d'.2, List.mem_of_mem_filter hd'⟩, P.state.server.top_lt_of_mem_handedTo hd⟩
    · rintro (⟨hin, hlt⟩ | hin)
      · exact .inr (.inr (hmem hin hlt))
      · exact .inr (.inl hin)

/-- The copies in the DLQs are those of the history. -/
theorem Bounded.copies_eq (hB : Bounded V P h) (name : String) (i : StreamID) :
    (ledger V P h).copies (name, i) = h.dlqOrigin name i := by
  rw [ledger]
  dsimp only
  split
  · rfl
  · next hd =>
    cases hc : h.dlqOrigin name i with
    | none => rfl
    | some x => exact absurd (hB.copy_mem _ _ _ hc).2 hd

/-- An event is a move of the ledger if it does to every part what the move does. -/
theorem refines_of_parts {L : Ledger StreamID Nat (String × StreamID)}
    (hstep : Ledger.Step (ledger V P h) L) (hB : Bounded V P' (h.update V P e))
    (horigin : (h.update V P e).origin = L.origin)
    (hlive : ∀ i, Outstanding V P'.state.server i ↔ i ∈ L.live)
    (hholds : (ledger V P' (h.update V P e)).holds = L.holds)
    (hcopies : ∀ name i, (h.update V P e).dlqOrigin name i = L.copies (name, i))
    (hfin : ∀ i, i ∈ (h.update V P e).finished ↔ i ∈ L.finished)
    (hlost : ∀ i, i ∈ (h.update V P e).lost ↔ i ∈ L.lost) :
    Ledger.Step (ledger V P h) (ledger V P' (h.update V P e)) := by
  have hcopies' : (ledger V P' (h.update V P e)).copies = L.copies := by
    funext d
    rw [← hcopies d.1 d.2]
    exact hB.copies_eq d.1 d.2
  have heq : ledger V P' (h.update V P e) = L :=
    Ledger.ext horigin (Set.ext hlive) hholds hcopies' (Set.ext hfin) (Set.ext hlost)
  exact heq ▸ hstep

/-- An event that neither adds, acknowledges nor loses an entry leaves the ledger alone. -/
theorem refines_quiet (hB : Bounded V P h) (hB' : Bounded V P' (h.update V P e)) (hS : Sound V P h)
    (hs : Pool.Step P e P') (hadd : h.entryAdded V e = none) (hcopy : h.copyAdded V e = none)
    (hack : ∀ t i, ¬ History.Acks V P t i e) (hlose : ∀ i, ¬ h.Loses V P i e)
    (hholds : (ledger V P' (h.update V P e)).holds = (ledger V P h).holds) :
    Ledger.Step (ledger V P h) (ledger V P' (h.update V P e)) := by
  refine refines_of_parts (.refl _) hB' ?_ (outstanding_quiet hS hs hadd hack) hholds ?_ ?_ ?_
  · simp [History.update, hadd, ledger]
  · intro name i
    rw [hB.copies_eq]
    simp [History.update, hcopy]
  · simp [History.update, hack, ledger]
  · simp [History.update, hlose, ledger]

/-- What a recoverer holds when it adds. -/
theorem exists_held_of_xadd (hS : Sound V P h) {t c : Nat} {stream : String} {maxLen : Int}
    {v : Values} {ch : Choice} {r : Except Err String} {f : Option Call}
    (hs : Pool.Step P (.op (M := V.machine) t c (.xadd stream maxLen v) ch r f) P') :
    ∃ i, h.held t = some i ∧ (ledger V P h).holds t = {i} := by
  obtain ⟨f', hl⟩ := hs.op_live
  have hkn := hS.knows _ _ _ hl
  obtain ⟨scope, stage, hq, hadd⟩ : (h.session t).Ok V.json (V.client c) (.xadd stream maxLen v) :=
    hS.obeying.ok hs
  rw [hq] at hkn
  cases stage with
  | won entry name =>
    obtain ⟨⟨i, hi, -⟩, -⟩ := hkn
    have hheld : h.held t = some i := by rw [History.held, hq]; exact hi
    refine ⟨i, hheld, ?_⟩
    rw [holds_of_live hl]
    ext j
    rw [History.held] at hheld
    simp [hheld, eq_comm]
  | _ => exact hadd.elim

/-- An ID above all others was never used. -/
theorem unused_of_top_lt (hS : Sound V P h) (hB : Bounded V P h) {i : StreamID}
    (hlt : (V.stream P.state.server).top < i) : (ledger V P h).Unused i where
  origin_eq := by
    cases ho : h.origin i with
    | none => exact ho
    | some x => exact absurd (hB.origin_le i x ho) hlt.not_ge
  not_live := by
    rintro (⟨hm, -⟩ | hm)
    · exact absurd (Log.le_top_of_mem hm) hlt.not_ge
    · exact absurd (Log.le_top_of_mem (hS.pending_sub i hm)) hlt.not_ge
  not_held := by
    rintro t ⟨c, f, hl, hi⟩
    exact absurd ((hS.held_settled hl hi).1.trans hS.delivered_le) hlt.not_ge
  not_finished hi := absurd (hB.ended_le i (.inl hi)) hlt.not_ge
  not_lost hi := absurd (hB.ended_le i (.inr hi)) hlt.not_ge

/-- An added entry is outstanding, and nothing else changes. -/
theorem outstanding_push (hS : Sound V P h) {s' : Server} {i j : StreamID} {v : Values}
    {hlt : (V.stream P.state.server).top < i}
    (hst : V.stream s' = (V.stream P.state.server).push i v hlt)
    (hp : V.pending s' = V.pending P.state.server) :
    Outstanding V s' j ↔ j = i ∨ Outstanding V P.state.server j := by
  rw [Outstanding, Outstanding, hst, hp, Log.mem_push]
  have hnew : (V.pending P.state.server).top < i := hS.delivered_le.trans_lt hlt
  constructor
  · rintro (⟨hj | rfl, hlt⟩ | hj)
    · exact .inr (.inl ⟨hj, hlt⟩)
    · exact .inl rfl
    · exact .inr (.inr hj)
  · rintro (rfl | ⟨hj, hlt⟩ | hj)
    · exact .inl ⟨.inr rfl, hnew⟩
    · exact .inl ⟨.inl hj, hlt⟩
    · exact .inr hj

section Adds

variable {t c : Nat} {stream : String} {maxLen : Int} {v : Values} {ch : Choice}
  {r : Except Err String} {f : Option Call}
  (hs : Pool.Step P (.op (M := V.machine) t c (.xadd stream maxLen v) ch r f) P')

include hs

/-- A recoverer that adds holds nothing afterwards. -/
theorem holds_xadd (hS : Sound V P h) :
    (ledger V P' (h.update V P (.op (M := V.machine) t c (.xadd stream maxLen v) ch r f))).holds =
      Function.update (ledger V P h).holds t ∅ := by
  obtain ⟨scope, stage, hq, -⟩ : (h.session t).Ok V.json (V.client c) (.xadd stream maxLen v) :=
    hS.obeying.ok hs
  have hnone := Session.holding_onAdd (r := V.client c) ⟨scope, stage, hq⟩ r
  rw [holds_op (h := h) hs]
  congr 1
  ext j
  simp [Session.next, hnone]

/-- An addition that fails loses the task. -/
theorem refines_xadd_failed (hS : Sound V P h) (hB : Bounded V P h)
    (hB' : Bounded V P' (h.update V P (.op (M := V.machine) t c (.xadd stream maxLen v) ch r f)))
    (hf : ch.effective = false) (heq : P'.state = P.state) :
    Ledger.Step (ledger V P h)
      (ledger V P' (h.update V P (.op (M := V.machine) t c (.xadd stream maxLen v) ch r f))) := by
  obtain ⟨i, hheld, hholds⟩ := exists_held_of_xadd hS hs
  have hstep := Ledger.Step.drop (L := ledger V P h) {t} (fun _ ↦ i) (by simp [hholds])
  refine refines_of_parts hstep hB' ?_ ?_ ?_ ?_ ?_ ?_
  · simp [History.update, History.entryAdded, hf, ledger]
  · intro j
    rw [heq]
    rfl
  · rw [holds_xadd hs hS]
    funext u
    by_cases hu : u = t
    · subst hu
      simp
    · simp [hu]
  · intro name j
    rw [hB.copies_eq]
    simp [History.update, History.copyAdded, hf]
  · simp [History.update, History.Acks, ledger]
  · intro j
    show j ∈ h.lost ∨ (h.held t = some j ∧ ch.effective = false) ↔
      j ∈ h.lost ∨ ∃ u ∈ ({t} : Set Nat), j ∈ (ledger V P h).holds u
    simp [hheld, hholds, hf, eq_comm]

/-- An addition to the LBS puts the task back. -/
theorem refines_xadd_lbs (hS : Sound V P h) (hB : Bounded V P h)
    (hB' : Bounded V P' (h.update V P (.op (M := V.machine) t c (.xadd stream maxLen v) ch r f)))
    (hf : ch.effective = true) (hstream : stream = V.lbs)
    (hlt : (V.stream P.state.server).top < ch.newID)
    (heq : P'.state.server =
      P.state.server.setStream V.lbs ((V.stream P.state.server).push ch.newID v hlt)) :
    Ledger.Step (ledger V P h)
      (ledger V P' (h.update V P (.op (M := V.machine) t c (.xadd stream maxLen v) ch r f))) := by
  obtain ⟨i, hheld, hholds⟩ := exists_held_of_xadd hS hs
  have hstep := Ledger.Step.putBack hholds (unused_of_top_lt hS hB hlt)
  refine refines_of_parts hstep hB' ?_ ?_ (holds_xadd hs hS) ?_ ?_ ?_
  · simp [History.update, History.entryAdded, hf, hheld, hstream, ledger]
  · intro j
    rw [heq]
    exact outstanding_push hS Service.stream_setStream rfl
  · intro name j
    rw [hB.copies_eq]
    simp [History.update, History.copyAdded, hstream]
  · simp [History.update, History.Acks, ledger]
  · simp [History.update, History.Loses, History.Drops, hf, ledger]

/-- An addition to a DLQ stores a copy of the task. -/
theorem refines_xadd_dlq (hS : Sound V P h) (hB : Bounded V P h)
    (hB' : Bounded V P' (h.update V P (.op (M := V.machine) t c (.xadd stream maxLen v) ch r f)))
    (hf : ch.effective = true) (hne : stream ≠ V.lbs)
    (hlt : (P.state.server.streams stream).top < ch.newID)
    (heq : P'.state.server = P.state.server.setStream stream
      ((P.state.server.streams stream).push ch.newID v hlt)) :
    Ledger.Step (ledger V P h)
      (ledger V P' (h.update V P (.op (M := V.machine) t c (.xadd stream maxLen v) ch r f))) := by
  obtain ⟨i, hheld, hholds⟩ := exists_held_of_xadd hS hs
  have hunused : (ledger V P h).copies (stream, ch.newID) = none := by
    rw [hB.copies_eq]
    cases hc : h.dlqOrigin stream ch.newID with
    | none => rfl
    | some x => exact absurd (Log.le_top_of_mem (hB.copy_mem _ _ _ hc).2) hlt.not_ge
  have hcopy : h.copyAdded V (.op (M := V.machine) t c (.xadd stream maxLen v) ch r f) =
      some (stream, ch.newID, h.origin i) := by
    simp [History.copyAdded, hne, hf, hheld]
  have hold : (fun d : String × StreamID ↦ h.dlqOrigin d.1 d.2) = (ledger V P h).copies :=
    funext fun d ↦ (hB.copies_eq d.1 d.2).symm
  refine refines_of_parts (.store hholds hunused) hB' ?_ ?_ (holds_xadd hs hS) ?_ ?_ ?_
  · simp [History.update, History.entryAdded, hne, ledger]
  · intro j
    rw [heq, Outstanding, Service.stream_setStream_of_ne hne]
    rfl
  · intro name j
    rw [History.dlqOrigin_update hcopy (name, j), hold]
    rfl
  · simp [History.update, History.Acks, ledger]
  · simp [History.update, History.Loses, History.Drops, hf, ledger]

/-- A recoverer that adds puts its task back, stores a copy of it, or loses it. -/
theorem refines_xadd (hcap : ∀ c, (V.client c).recoveryConfig.dlqMaxLen = 0) (hS : Sound V P h)
    (hB : Bounded V P h) :
    Ledger.Step (ledger V P h)
      (ledger V P' (h.update V P (.op (M := V.machine) t c (.xadd stream maxLen v) ch r f))) := by
  have hB' := hB.step hcap hS hs
  obtain ⟨scope, stage, -, hadd⟩ : (h.session t).Ok V.json (V.client c) (.xadd stream maxLen v) :=
    hS.obeying.ok hs
  have hx : World.exec c (.xadd stream maxLen v) ch P.state = some (r, P'.state, f) := hs.op_exec
  obtain ⟨-, ⟨hf, heq, -⟩ | ⟨hf, r', s, hr, heq, -⟩⟩ := World.exec_xadd hx
  · exact refines_xadd_failed hs hS hB hB' hf heq
  rcases hadd.target with ⟨hstream, hmax⟩ | ⟨hstream, hmax⟩
  · rw [V.lbsName_eq] at hstream
    rw [hstream, hmax] at hr
    obtain ⟨hlt, rfl, -⟩ := Server.xadd_uncapped hr
    exact refines_xadd_lbs hs hS hB hB' hf hstream hlt (by rw [heq]; rfl)
  · have hne : stream ≠ V.lbs := hstream ▸ V.dlqStream_ne_lbs c
    rw [hmax, hcap] at hr
    obtain ⟨hlt, rfl, -⟩ := Server.xadd_uncapped hr
    exact refines_xadd_dlq hs hS hB hB' hf hne hlt (by rw [heq]; rfl)

end Adds

/-- An acknowledged entry is outstanding no more. -/
theorem outstanding_ack {s s' : Server} {i j : StreamID} (hi : i ∈ V.pending s)
    (hst : V.stream s' = V.stream s) (hp : V.pending s' = (V.pending s).erase i) :
    Outstanding V s' j ↔ Outstanding V s j ∧ j ≠ i := by
  have hle : i ≤ (V.pending s).top := Log.le_top_of_mem hi
  rw [Outstanding, Outstanding, hst, hp, Log.mem_erase, Log.top_erase]
  constructor
  · rintro (⟨hj, hlt⟩ | ⟨hj, hne⟩)
    · exact ⟨.inl ⟨hj, hlt⟩, fun heq ↦ absurd hlt (heq ▸ hle).not_gt⟩
    · exact ⟨.inr hj, hne⟩
  · rintro ⟨hj | hj, hne⟩
    · exact .inl hj
    · exact .inr ⟨hj, hne⟩

/-- An acknowledgement that took an entry off the pending list, and whose reply arrived,
returned 1. -/
theorem reply_of_acks {t c : Nat} {stream group id : String} {ch : Choice} {r : Except Err Int}
    {f : Option Call} {i : StreamID} (hl : ∀ err, ch.fault ≠ .lost err)
    (hs : Pool.Step P (.op (M := V.machine) t c (.xack stream group id) ch r f) P')
    (hi : History.Acks V P t i (.op (M := V.machine) t c (.xack stream group id) ch r f)) :
    r = .ok 1 := by
  have hx : World.exec c (.xack stream group id) ch P.state = some (r, P'.state, f) := hs.op_exec
  obtain ⟨-, rfl, rfl, hf, hid, hm⟩ := hi
  obtain ⟨-, ⟨hf', -⟩ | ⟨-, -, ⟨-, hr⟩ | ⟨err, hf', -⟩⟩⟩ := World.exec_xack hx
  · simp [hf] at hf'
  · rcases P.state.server.xack_cases V.lbs V.group id with ⟨j, -, -, heq⟩ | ⟨hno, -⟩
    · rw [hr, heq]
    · exact absurd hm (hno i hid)
  · exact absurd hf' (hl err)

/-- An acknowledgement that took no entry off the pending list did not return 1. -/
theorem reply_of_not_acks (hS : Sound V P h) {t c : Nat} {stream group id : String} {ch : Choice}
    {r : Except Err Int} {f : Option Call}
    (hs : Pool.Step P (.op (M := V.machine) t c (.xack stream group id) ch r f) P')
    (hno : ∀ i, ¬ History.Acks V P t i (.op (M := V.machine) t c (.xack stream group id) ch r f))
    {k : Int} (hr : r = .ok k) : k = 0 := by
  have hx : World.exec c (.xack stream group id) ch P.state = some (r, P'.state, f) := hs.op_exec
  obtain ⟨hstream, hgroup, -⟩ : (h.session t).Ok V.json (V.client c) (.xack stream group id) :=
    hS.obeying.ok hs
  rw [V.lbsName_eq] at hstream
  rw [V.lbsGroupName_eq] at hgroup
  subst hstream hgroup hr
  obtain ⟨-, ⟨-, -, err, herr⟩ | ⟨hf, -, ⟨-, hr⟩ | ⟨err, herr⟩⟩⟩ := World.exec_xack hx
  · simp at herr
  · rcases P.state.server.xack_cases V.lbs V.group id with ⟨i, hi, hm, -⟩ | ⟨-, -, hz | hz⟩
    · exact absurd ⟨rfl, rfl, rfl, hf, hi, hm⟩ (hno i)
    · simpa [hz] using hr
    · simp [hz] at hr
  · simp at herr

section Ack

variable {t c : Nat} {stream group id : String} {ch : Choice} {r : Except Err Int}
  {f : Option Call} {i : StreamID}

/-- What an acknowledgement that takes an entry off the pending list is in the ledger. -/
theorem refines_of_acks {L : Ledger StreamID Nat (String × StreamID)}
    (hstep : Ledger.Step (ledger V P h) L) (hS : Sound V P h) (hB : Bounded V P h)
    (hs : Pool.Step P (.op (M := V.machine) t c (.xack stream group id) ch r f) P')
    (hB' : Bounded V P' (h.update V P (.op (M := V.machine) t c (.xack stream group id) ch r f)))
    (hi : History.Acks V P t i (.op (M := V.machine) t c (.xack stream group id) ch r f))
    (horigin : L.origin = h.origin) (hlive : L.live = (ledger V P h).live \ {i})
    (hholds : L.holds = Function.update (ledger V P h).holds t
      {j | ((h.session t).next V.json (V.client c) (.xack stream group id) r).holding = some j})
    (hcopies : L.copies = (ledger V P h).copies)
    (hfin : L.finished = h.finished ∪ {j | j = i ∧ ∃ info, h.session t = .popped info})
    (hlost : L.lost = h.lost ∪
      {j | j = i ∧ ∃ scope id, h.session t = .recover scope (.missing id)}) :
    Ledger.Step (ledger V P h)
      (ledger V P' (h.update V P (.op (M := V.machine) t c (.xack stream group id) ch r f))) := by
  refine refines_of_parts hstep hB' ?_ ?_ ?_ ?_ ?_ ?_
  · rw [horigin]
    rfl
  · intro j
    rw [hlive]
    cases change hS.obeying hs with
    | ack u k hk hst hp =>
      obtain ⟨-, rfl⟩ := History.acks_unique hi hk
      exact outstanding_ack hi.2.2.2.2.2 hst hp
    | same _ _ _ _ hno => exact absurd hi (hno t i)
    | push _ _ _ _ _ _ _ _ hno => exact absurd hi (hno t i)
    | del _ _ _ _ _ _ _ _ _ hno => exact absurd hi (hno t i)
    | deliver _ _ _ _ _ hno => exact absurd hi (hno t i)
  · rw [hholds, holds_op hs]
  · intro name j
    rw [hcopies, hB.copies_eq]
    rfl
  · intro j
    rw [hfin]
    refine or_congr_right ⟨?_, ?_⟩
    · rintro ⟨u, info, hu, hq⟩
      obtain ⟨rfl, rfl⟩ := History.acks_unique hi hu
      exact ⟨rfl, info, hq⟩
    · rintro ⟨rfl, info, hq⟩
      exact ⟨t, info, hi, hq⟩
  · intro j
    rw [hlost]
    refine or_congr_right ⟨?_, ?_⟩
    · rintro ⟨u, scope, id', hu, hq⟩
      obtain ⟨rfl, rfl⟩ := History.acks_unique hi hu
      exact ⟨rfl, scope, id', hq⟩
    · rintro ⟨rfl, scope, id', hq⟩
      exact ⟨t, scope, id', hi, hq⟩

/-- An acknowledgement takes, finishes or loses the entry it takes off the pending
list. -/
theorem refines_xack (hcap : ∀ c, (V.client c).recoveryConfig.dlqMaxLen = 0) (hS : Sound V P h)
    (hB : Bounded V P h) (hl : ∀ err, ch.fault ≠ .lost err)
    (hs : Pool.Step P (.op (M := V.machine) t c (.xack stream group id) ch r f) P') :
    Ledger.Step (ledger V P h)
      (ledger V P' (h.update V P (.op (M := V.machine) t c (.xack stream group id) ch r f))) := by
  have hB' := hB.step hcap hS hs
  obtain ⟨f', hlive⟩ := hs.op_live
  have hok : (h.session t).Ok V.json (V.client c) (.xack stream group id) := hS.obeying.ok hs
  have hholds : (ledger V P h).holds t = ∅ := by
    simp [holds_of_live hlive, Session.holding_of_okAck hok]
  by_cases hi : ∃ i, History.Acks V P t i (.op (M := V.machine) t c (.xack stream group id) ch r f)
  · obtain ⟨i, hi⟩ := hi
    obtain rfl := reply_of_acks hl hs hi
    have hmem : i ∈ (ledger V P h).live := .inr hi.2.2.2.2.2
    have hid : StreamID.ofText? id = some i := hi.2.2.2.2.1
    obtain ⟨-, -, ⟨scope, stage, hq, hack⟩ | ⟨info, hq, -⟩⟩ := hok
    · cases stage with
      | missing id' =>
        have hstep := Ledger.Step.lose hmem
        refine refines_of_acks hstep hS hB hs hB' hi rfl rfl ?_ rfl ?_ ?_
        · simp [hq, Session.next, Session.onAck, Session.onStage, Stage.onAck, Session.holding,
            Stage.holding, ← hholds]
        · simp [hq, ledger]
        · simp [hq, ledger]
      | found entry =>
        obtain ⟨rfl, -⟩ := hack
        have hstep := Ledger.Step.take (t := t) hmem
        refine refines_of_acks hstep hS hB hs hB' hi rfl rfl ?_ rfl ?_ ?_
        · simp [hq, Session.next, Session.onAck, Session.onStage, Stage.onAck, Session.holding,
            Stage.holding, hid, hholds]
        · simp [hq, ledger]
        · simp [hq, ledger]
      | dead entry name =>
        obtain rfl : id = entry.id := hack
        have hstep := Ledger.Step.take (t := t) hmem
        refine refines_of_acks hstep hS hB hs hB' hi rfl rfl ?_ rfl ?_ ?_
        · simp [hq, Session.next, Session.onAck, Session.onStage, Stage.onAck, Session.holding,
            Stage.holding, hid, hholds]
        · simp [hq, ledger]
        · simp [hq, ledger]
      | _ => exact hack.elim
    · have hstep := Ledger.Step.finish hmem
      refine refines_of_acks hstep hS hB hs hB' hi rfl rfl ?_ rfl ?_ ?_
      · simp [hq, Session.next, Session.onAck, Session.holding, ← hholds]
      · simp [hq, ledger]
      · simp [hq, ledger]
  · -- nothing was acknowledged
    have hno := not_exists.1 hi
    have hack : ∀ u i, ¬ History.Acks V P u i
        (.op (M := V.machine) t c (.xack stream group id) ch r f) := by
      intro u i hi
      exact hno i (hi.1 ▸ hi)
    have hholds' := holds_op (h := h) hs
    refine refines_quiet hB hB' hS hs rfl rfl hack ?_ ?_
    · rintro i ⟨u, scope, id, hu, -⟩
      exact hack u i hu
    · have hzero : ∀ k, r = .ok k → k = 0 := fun k hk ↦ reply_of_not_acks hS hs hno hk
      rw [hholds', Function.update_eq_self_iff, hholds]
      simp [Session.next, Session.holding_onAck hok hzero]

end Ack

/-- A crash loses what the goroutines of the client hold. -/
theorem refines_crash (hS : Sound V P h) (hB : Bounded V P h) {c : Nat}
    (hB' : Bounded V P' (h.update V P (.crash (M := V.machine) c)))
    (hs : Pool.Step P (.crash (M := V.machine) c) P') :
    Ledger.Step (ledger V P h) (ledger V P' (h.update V P (.crash (M := V.machine) c))) := by
  have hstep := Ledger.Step.drop (L := ledger V P h) {t | ∃ f, P.Live t c f}
    (fun t ↦ (h.held t).getD StreamID.zero) (by
      rintro t - i ⟨-, -, -, hi⟩
      simp [hi])
  refine refines_of_parts hstep hB' rfl ?_ ?_ ?_ ?_ ?_
  · exact outstanding_quiet hS hs rfl fun _ _ ↦ not_false
  · rw [holds_other hs rfl]
    funext t
    ext i
    refine and_congr_right fun _ ↦ ⟨?_, ?_⟩
    · rintro hne ⟨f, hl⟩
      exact hne c f hl rfl
    · rintro hno d f hl heq
      obtain rfl := Event.crash.inj heq
      exact hno ⟨f, hl⟩
  · intro name i
    rw [hB.copies_eq]
    rfl
  · simp [History.update, History.Acks, ledger]
  · intro i
    refine or_congr_right ⟨?_, ?_⟩
    · rintro ⟨t, f, hl, hi⟩
      exact ⟨t, ⟨f, hl⟩, c, f, hl, hi⟩
    · rintro ⟨t, ⟨f, hl⟩, -, -, -, hi⟩
      exact ⟨t, f, hl, hi⟩

/-- A producer's entry is a new task. -/
theorem refines_produce (hS : Sound V P h) (hB : Bounded V P h) {i : StreamID} {v : Values}
    (hB' : Bounded V P' (h.update V P (.env (M := V.machine) (.produce V.lbs i v))))
    (hs : Pool.Step P (.env (M := V.machine) (.produce V.lbs i v)) P') :
    Ledger.Step (ledger V P h)
      (ledger V P' (h.update V P (.env (M := V.machine) (.produce V.lbs i v)))) := by
  have hadded : h.entryAdded V (.env (M := V.machine) (.produce V.lbs i v)) = some (i, v, some i) :=
    if_pos rfl
  have hholds := holds_other (h := h) hs rfl
  cases change hS.obeying hs with
  | push j w x hlt hst hp hadd =>
    obtain ⟨rfl, rfl, rfl⟩ : i = j ∧ v = w ∧ some i = x := by simpa [hadded] using hadd
    have hstep := Ledger.Step.produce (unused_of_top_lt hS hB hlt)
    refine refines_of_parts hstep hB' ?_ ?_ ?_ ?_ ?_ ?_
    · simp [History.update, hadded, ledger]
    · exact fun j ↦ outstanding_push hS hst hp
    · simpa using hholds
    · intro name j
      rw [hB.copies_eq]
      rfl
    · simp [History.update, History.Acks, ledger]
    · simp [History.update, History.Loses, History.Acks, ledger]
  | same _ _ hadd => simp [hadded] at hadd
  | del _ _ _ _ _ _ _ hadd => simp [hadded] at hadd
  | ack _ _ _ _ _ hadd => simp [hadded] at hadd
  | deliver _ _ _ _ hadd => simp [hadded] at hadd

/-- **Every event is a move of the ledger**, if replies are not lost and no DLQ is
capped. -/
theorem refines (hcap : ∀ c, (V.client c).recoveryConfig.dlqMaxLen = 0) (hS : Sound V P h)
    (hB : Bounded V P h) (hl : NoLostReply e) (hs : Pool.Step P e P') :
    Ledger.Step (ledger V P h) (ledger V P' (h.update V P e)) := by
  have hB' := hB.step hcap hS hs
  cases e with
  | op t c o ch r f =>
    by_cases hadd : ∃ s n v, o = .xadd s n v
    · obtain ⟨s, n, v, rfl⟩ := hadd
      exact refines_xadd hs hcap hS hB
    by_cases hack : ∃ s g i, o = .xack s g i
    · obtain ⟨s, g, i, rfl⟩ := hack
      exact refines_xack hcap hS hB hl hs
    obtain ⟨f', hlive⟩ := hs.op_live
    have hok : (h.session t).Ok V.json (V.client c) o := hS.obeying.ok hs
    have hkeep := Session.holding_next (V.dlqStream_ne_empty c) hok
      (fun s g i h ↦ hack ⟨s, g, i, h⟩) (fun s n v h ↦ hadd ⟨s, n, v, h⟩) r
    have hholds : (ledger V P' (h.update V P (.op (M := V.machine) t c o ch r f))).holds =
        (ledger V P h).holds := by
      rw [holds_op hs, Function.update_eq_self_iff, hkeep, holds_of_live hlive]
    have hnoack : ∀ u i, ¬ History.Acks V P u i (.op (M := V.machine) t c o ch r f) := by
      intro u i
      cases o with
      | xack s g i => exact absurd ⟨s, g, i, rfl⟩ hack
      | _ => exact not_false
    refine refines_quiet hB hB' hS hs ?_ ?_ hnoack ?_ hholds
    · cases o with
      | xadd s n v => exact absurd ⟨s, n, v, rfl⟩ hadd
      | _ => rfl
    · cases o with
      | xadd s n v => exact absurd ⟨s, n, v, rfl⟩ hadd
      | _ => rfl
    · intro i
      cases o with
      | xadd s n v => exact absurd ⟨s, n, v, rfl⟩ hadd
      | _ =>
        rintro ⟨u, -, -, hu, -⟩
        exact hnoack u i hu
  | crash c => exact refines_crash hS hB hB' hs
  | env e =>
    by_cases hp : ∃ i v, e = .produce V.lbs i v
    · obtain ⟨i, v, rfl⟩ := hp
      exact refines_produce hS hB hB' hs
    · have hnone : h.entryAdded V (.env (M := V.machine) e) = none := by
        cases e with
        | produce stream i v =>
          refine if_neg ?_
          rintro rfl
          exact hp ⟨i, v, rfl⟩
        | _ => rfl
      have hlose : ∀ i, ¬ h.Loses V P i (.env (M := V.machine) e) := fun _ ⟨_, _, _, hu, _⟩ ↦ hu
      refine refines_quiet hB hB' hS hs hnone rfl (fun _ _ ↦ not_false) hlose ?_
      simpa using holds_other (h := h) hs rfl
  | again t =>
    have hlose : ∀ i, ¬ h.Loses V P i (.again (M := V.machine) t) := fun _ ⟨_, _, _, hu, _⟩ ↦ hu
    refine refines_quiet hB hB' hS hs rfl rfl (fun _ _ ↦ not_false) hlose ?_
    simpa using holds_other (h := h) hs rfl
  | start c f =>
    have hlose : ∀ i, ¬ h.Loses V P i (.start (M := V.machine) c f) := fun _ ⟨_, _, _, hu, _⟩ ↦ hu
    refine refines_quiet hB hB' hS hs rfl rfl (fun _ _ ↦ not_false) hlose ?_
    simpa using holds_other (h := h) hs rfl

end Refines

/-! ## Conservation -/

section Conservation

variable {V : Service} {h : History} {P₀ P : Pool V.machine}
  {G : History → Pool V.machine → Event V.machine → Prop}

theorem wellFormed_init : (ledger V P₀ (.init V P₀.state.server)).WellFormed where
  origin_origin _ _ hi := absurd hi (by simp [ledger, History.init])
  origin_copy _ _ hd := absurd hd (by simp [ledger, History.init])
  placed _ hx := absurd hx (by simp [ledger, History.init])

theorem bounded_init : Bounded V P₀ (.init V P₀.state.server) where
  origin_le _ _ hi := absurd hi (by simp [History.init])
  ended_le _ hi := absurd hi (by simp [History.init])
  copy_mem _ _ _ hi := absurd hi (by simp [History.init])

/-- The ledger of every run is well formed. -/
theorem Service.Run.wellFormed (hcap : ∀ c, (V.client c).recoveryConfig.dlqMaxLen = 0)
    (hG : ∀ h P e, G h P e → NoLostReply e) (h₀ : Fresh V P₀) (hr : V.Run G P₀ P h) :
    Sound V P h ∧ Bounded V P h ∧ (ledger V P h).WellFormed := by
  refine hr.invariant (I := fun P h ↦ Bounded V P h ∧ (ledger V P h).WellFormed) h₀
    ⟨bounded_init, wellFormed_init⟩ ?_
  rintro P h e P' hS - - hg hs ⟨hB, hW⟩
  exact ⟨hB.step hcap hS hs, (refines hcap hS hB (hG h P e hg) hs).wellFormed hW⟩

/-- A task whose first entry is lost is nowhere else. -/
theorem at_of_lost (hW : (ledger V P h).WellFormed) {x : StreamID} (hx : h.origin x = some x)
    (hl : x ∈ h.lost) (p : Place StreamID Nat (String × StreamID))
    (hp : (ledger V P h).At x p) : ∃ i, p = .lost i :=
  ⟨x, (hW.placed x hx).unique hp ⟨hl, hx⟩⟩

end Conservation

end RedisStreamClient.Impl
