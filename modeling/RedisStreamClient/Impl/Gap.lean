import RedisStreamClient.Impl.LiveOwner

/-!
# Entries taken and not added again

A recoverer that has taken an entry off the pending list owes it a successor, in the LBS
or the DLQ, or a report that there is none, `RecordAckAddGap`.  The run carries an
`Account` of what was taken, what got a successor and what was reported.

A recoverer knows of what it has taken by the reply to its `XACK`.  If that reply is lost
nobody knows, and the entry is gone without a report (`taken_unreported`).
`taken_accounted` is for the runs in which this does not happen.
-/

namespace RedisStreamClient.Impl

open RedisStreamClient.Lib RedisStreamClient.Errs RedisStreamClient.Notifs
open RedisStreamClient.Redis

/-- The entry that a recoverer owes a successor or a report. -/
def Stage.owing : Stage → Option StreamID
  | .won e _ | .gap e => StreamID.ofText? e.id
  | _ => none

namespace Session

variable {J : Json} {r : Client} {q : Session} {o : Op} {i : StreamID}

/-- **What a recoverer owes it goes on owing**, until it adds a successor or reports. -/
theorem owing_next (hd : r.recoveryConfig.dlqStream ≠ "") (hok : q.Ok J r o)
    (hq : q.observe Stage.owing = some i) (reply : o.Reply) :
    (q.next J r o reply).observe Stage.owing = some i ∨
      (q.holding = some i ∧ ∃ s n v, o = .xadd s n v) ∨ ∃ s, o = .record (.ackAddGap s) := by
  have hrole : q.role = .recoverer := by
    cases q <;> first | rfl | cases hq
  obtain ⟨scope', stage', hn⟩ := exists_recover_of_role ((role_next hok reply).trans hrole)
  obtain ⟨scope, stage, rfl, rfl | ⟨s, i, rfl⟩ | ⟨key, rfl⟩ | ⟨s, g, i, rfl⟩ | ⟨s, n, v, rfl⟩ |
    ⟨s, i, rfl⟩ | ⟨s, rfl⟩⟩ := next_recover hok hn
  · rw [hn]
    exact .inl hq
  · obtain ⟨-, -, _, _, hq', hrest, -⟩ := hok
    obtain ⟨rfl, rfl⟩ := recover.inj hq'
    cases stage <;> first | cases hq | exact hrest.elim
  · obtain ⟨_, e, name, hq', -, -⟩ := hok
    obtain ⟨rfl, rfl⟩ := recover.inj hq'
    cases hq
  · obtain ⟨-, -, ⟨_, _, hq', hack⟩ | ⟨_, hq', -⟩⟩ := hok
    · obtain ⟨rfl, rfl⟩ := recover.inj hq'
      cases stage <;> first | cases hq | exact hack.elim
    · cases hq'
  · obtain ⟨_, _, hq', hadd⟩ := hok
    obtain ⟨rfl, rfl⟩ := recover.inj hq'
    cases stage with
    | won e name => exact .inr (.inl ⟨hq, s, n, v, rfl⟩)
    | _ => exact hadd.elim
  · obtain ⟨-, ⟨_, _, hq', hdel⟩ | ⟨_, hq', -⟩⟩ := hok
    · obtain ⟨rfl, rfl⟩ := recover.inj hq'
      cases stage with
      | won e name => exact absurd hdel.1 hd
      | gap e => exact hdel.elim
      | _ => cases hq
    · cases hq'
  · exact .inr (.inr ⟨s, rfl⟩)

/-- A recoverer whose addition failed goes on owing. -/
theorem owing_onAdd (hq : q.holding = some i) (err : Err) :
    (q.onStage (·.onAdd r (.error err))).observe Stage.owing = some i := by
  obtain ⟨scope, e, name, rfl, hid⟩ := exists_won_of_holding hq
  exact hid

/-- A recoverer that read an entry owes it once its acknowledgement has counted. -/
theorem owing_onAck {stream group id : String} (hok : q.Ok J r (.xack stream group id))
    (hrole : q.role = .recoverer) (hread : q.observe Stage.lacking = none)
    (hid : StreamID.ofText? id = some i) : (q.onAck (.ok 1)).observe Stage.owing = some i := by
  obtain ⟨-, -, ⟨scope, stage, rfl, hack⟩ | ⟨_, rfl, -⟩⟩ := hok
  · cases stage with
    | found e =>
      obtain ⟨rfl, -⟩ := hack
      exact hid
    | dead e name =>
      obtain rfl : id = e.id := hack
      exact hid
    | missing id' => cases hread
    | _ => exact hack.elim
  · cases hrole

end Session

/-! ## Accounts -/

/-- What recoverers took, by goroutine and entry, and what became of it. -/
structure Account where
  /-- What was taken off the pending list. -/
  taken : List (Nat × StreamID)
  /-- What got a successor, in the LBS or a DLQ. -/
  succeeded : List (Nat × StreamID)
  /-- What `RecordAckAddGap` was recorded for. -/
  reported : List (Nat × StreamID)

section Account

variable (V : Service) (h : History) (P : Pool V.machine)

/-- What a recoverer takes off the pending list. -/
def taking : Event V.machine → Option (Nat × StreamID)
  | .op t c (.xack stream group id) ch r f =>
    if (h.session t).role = .recoverer then
      ((StreamID.ofText? id).filter fun i ↦
        History.Acks V P t i (.op t c (.xack stream group id) ch r f)).map (t, ·)
    else none
  | _ => none

/-- What a recoverer adds a successor for. -/
def succeeding : Event V.machine → Option (Nat × StreamID)
  | .op t _ (.xadd _ _ _) ch _ _ => if ch.effective then (h.held t).map (t, ·) else none
  | _ => none

/-- What a recoverer reports. -/
def reporting : Event V.machine → Option (Nat × StreamID)
  | .op t _ (.record (.ackAddGap _)) _ _ _ => ((h.session t).observe Stage.owing).map (t, ·)
  | _ => none

/-- The history and the account after an event. -/
def Service.account (γ : History × Account) (P : Pool V.machine) (e : Event V.machine) :
    History × Account :=
  (γ.1.update V P e, ⟨(taking V γ.1 P e).toList ++ γ.2.taken,
    (succeeding V γ.1 e).toList ++ γ.2.succeeded, (reporting V γ.1 e).toList ++ γ.2.reported⟩)

/-- **Acknowledgements are heard of**: if the `XACK` of a recoverer takes an entry off the
pending list, its reply is not lost, and the recoverer has read the entry. -/
def AcksHeard : Event V.machine → Prop
  | .op t c (.xack stream group id) ch r f => ∀ i ∈ StreamID.ofText? id,
      History.Acks V P t i (.op t c (.xack stream group id) ch r f) →
        (h.session t).role = .recoverer →
          ch.fault = .none ∧ (h.session t).observe Stage.lacking = none
  | _ => True

theorem acksHeard_iff (e : Event V.machine) : AcksHeard V h P e ↔
    ∀ x ∈ History.xacked V e, ∀ i ∈ StreamID.ofText? x.2.2.2.1, (x.2.1 = V.lbs ∧
      x.2.2.1 = V.group ∧ x.2.2.2.2.effective ∧ i ∈ V.pending P.state.server) →
        (h.session x.1).role = .recoverer →
          x.2.2.2.2.fault = .none ∧ (h.session x.1).observe Stage.lacking = none := by
  cases e with
  | op t c o ch r f => cases o <;> simp +contextual [AcksHeard, History.xacked, History.Acks]
  | _ => simp [AcksHeard, History.xacked]

instance instDecidableAcksHeard : DecidablePred (AcksHeard V h P) :=
  Pool.decidableOn (History.xacked V) _ (acksHeard_iff V h P)

end Account

/-- **Everything taken is accounted for**: it got a successor, was reported, its recoverer
crashed, or still owes it. -/
structure Accounted (V : Service) (P : Pool V.machine) (γ : History × Account) : Prop where
  /-- The service is sound. -/
  sound : Sound V P γ.1
  /-- What was taken was taken by a goroutine. -/
  lt_length : ∀ d ∈ γ.2.taken, d.1 < P.threads.length
  /-- What was taken is accounted for. -/
  accounted : ∀ d ∈ γ.2.taken, d ∈ γ.2.succeeded ∨ d ∈ γ.2.reported ∨
    (¬ ∃ c f, P.Live d.1 c f) ∨ (γ.1.session d.1).observe Stage.owing = some d.2

namespace Accounted

variable {V : Service} {γ : History × Account} {P P' : Pool V.machine} {e : Event V.machine}

theorem of_taking {d : Nat × StreamID} (h : taking V γ.1 P e = some d) :
    (γ.1.session d.1).role = .recoverer ∧ History.Acks V P d.1 d.2 e := by
  unfold taking at h
  split at h
  · split at h
    · next hrole =>
      obtain ⟨i, hi, rfl⟩ := Option.map_eq_some_iff.1 h
      exact ⟨hrole, of_decide_eq_true (Option.filter_eq_some_iff.1 hi).2⟩
    · cases h
  · cases h

/-- What is taken now is owed. -/
theorem owing_of_taking (hS : Sound V P γ.1) (hs : Pool.Step P e P')
    (hheard : AcksHeard V γ.1 P e) {d : Nat × StreamID} (hd : taking V γ.1 P e = some d) :
    ((γ.1.update V P e).session d.1).observe Stage.owing = some d.2 := by
  obtain ⟨hrole, hacks⟩ := of_taking hd
  obtain ⟨c, id, ch, r, f, rfl, -, hid, -⟩ := History.Acks.exists_op hacks
  obtain ⟨hclean, hread⟩ := hheard d.2 hid hacks hrole
  obtain ⟨g, hl⟩ := hs.op_live
  have hok : (γ.1.session d.1).Ok V.json (V.client c) (.xack V.lbs V.group id) :=
    hS.obeying.ok hs
  have hr : r = .ok 1 := reply_of_acks (by simp [hclean]) hs hacks
  have hnext : (γ.1.update V P (.op d.1 c (.xack V.lbs V.group id) ch r f)).session d.1 =
      (γ.1.session d.1).onAck r := History.session_op hl.lt_length
  rw [hnext, hr]
  exact Session.owing_onAck hok hrole hread hid

/-- What is owed goes on being owed, unless it gets a successor, is reported, or its
recoverer crashes. -/
theorem owing_step (hS : Sound V P γ.1) (hs : Pool.Step P e P') {t : Nat} {i : StreamID}
    (ht : t < P.threads.length) (howe : (γ.1.session t).observe Stage.owing = some i) :
    succeeding V γ.1 e = some (t, i) ∨ reporting V γ.1 e = some (t, i) ∨
      ((γ.1.update V P e).session t).observe Stage.owing = some i := by
  by_cases hm : e.mover = some t
  swap
  · rw [History.session_of_mover_ne ht hm]
    exact .inr (.inr howe)
  cases e with
  | op t' c o ch r f =>
    obtain rfl : t' = t := Option.some.inj hm
    have hok : (γ.1.session t').Ok V.json (V.client c) o := hS.obeying.ok hs
    have hnext : (γ.1.update V P (.op t' c o ch r f)).session t' =
        (γ.1.session t').next V.json (V.client c) o r := History.session_op ht
    rcases Session.owing_next (V.dlqStream_ne_empty c) hok howe r with
      hnew | ⟨hheld, s, n, v, rfl⟩ | ⟨s, rfl⟩
    · rw [hnext]
      exact .inr (.inr hnew)
    · have hx : World.exec c (.xadd s n v) ch P.state = some (r, P'.state, f) := hs.op_exec
      obtain ⟨-, ⟨-, -, err, hr⟩ | ⟨hf, -⟩⟩ := World.exec_xadd hx
      · refine .inr (.inr ?_)
        rw [hnext, hr]
        exact Session.owing_onAdd hheld err
      · refine .inl ?_
        rw [succeeding, if_pos hf, History.held, hheld]
        rfl
    · refine .inr (.inl ?_)
      rw [reporting, howe]
      rfl
  | _ => cases hm

/-- Who has crashed does not come back. -/
theorem not_live_step (hs : Pool.Step P e P') {t : Nat} (ht : t < P.threads.length)
    (hdead : ¬ ∃ c f, P.Live t c f) : ¬ ∃ c f, P'.Live t c f := by
  rintro ⟨c, f, hl⟩
  rcases hs.live_iff.1 hl with ⟨hl, -⟩ | ⟨rfl, -⟩
  · exact hdead ⟨c, f, hl⟩
  · exact lt_irrefl _ ht

/-- **The invariant is kept by every event**, if acknowledgements are heard of. -/
theorem step (hA : Accounted V P γ) (hs : Pool.Step P e P') (hpub : Service.Public e)
    (hheard : AcksHeard V γ.1 P e) : Accounted V P' (V.account γ P e) := by
  refine ⟨hA.sound.step hs hpub, ?_, ?_⟩
  · intro d hd
    rcases List.mem_append.1 hd with hd | hd
    · obtain ⟨-, hacks⟩ := of_taking (Option.mem_toList.1 hd)
      obtain ⟨c, id, ch, r, f, rfl, -⟩ := History.Acks.exists_op hacks
      obtain ⟨g, hl⟩ := hs.op_live
      exact hl.lt_length.trans_le hs.length_le
    · exact (hA.lt_length d hd).trans_le hs.length_le
  · rintro ⟨t, i⟩ hd
    rcases List.mem_append.1 hd with hd | hd
    · exact .inr (.inr (.inr (owing_of_taking hA.sound hs hheard (Option.mem_toList.1 hd))))
    · have ht := hA.lt_length _ hd
      rcases hA.accounted _ hd with hsucc | hrep | hdead | howe
      · exact .inl (List.mem_append_right _ hsucc)
      · exact .inr (.inl (List.mem_append_right _ hrep))
      · exact .inr (.inr (.inl (not_live_step hs ht hdead)))
      · rcases owing_step hA.sound hs ht howe with hsucc | hrep | howe
        · exact .inl (List.mem_append_left _ (Option.mem_toList.2 hsucc))
        · exact .inr (.inl (List.mem_append_left _ (Option.mem_toList.2 hrep)))
        · exact .inr (.inr (.inr howe))

theorem init (h₀ : Fresh V P) : Accounted V P (.init V P.state.server, ⟨[], [], []⟩) where
  sound := h₀.sound
  lt_length _ hd := absurd hd List.not_mem_nil
  accounted _ hd := absurd hd List.not_mem_nil

end Accounted

/-- A goroutine that returns owes nothing. -/
theorem Session.owing_of_exit {q : Session} {a : Res} (h : q.Exit (.inl a)) :
    q.observe Stage.owing = none := by
  cases q with
  | recover scope stage =>
    cases a with
    | claimed e =>
      obtain ⟨_, _, hq, hclaimed⟩ := h
      obtain ⟨rfl, rfl⟩ := Session.recover.inj hq
      cases stage <;> first | rfl | exact hclaimed.elim
    | ended =>
      rcases h with ⟨-, hrest⟩ | hrole
      · cases stage <;> first | rfl | exact hrest.elim
      · cases hrole
    | doneStream e => cases h
    | extended e => cases h
    | broker b => cases h
  | _ => rfl

/-- **No silent loss.**  In every run in which the `XACK`s of recoverers are heard of, every
entry that a recoverer has taken off the pending list has got a successor from it or was
reported by it, unless the recoverer crashed or is not done with it. -/
theorem taken_accounted (V : Service) (P₀ P : Pool V.machine) (γ : History × Account)
    (h₀ : Fresh V P₀)
    (hr : Pool.Run V.account (fun γ P e ↦ Service.Public e ∧ AcksHeard V γ.1 P e)
      (P₀, (.init V P₀.state.server, ⟨[], [], []⟩)) P γ) (t : Nat) (i : StreamID)
    (htaken : (t, i) ∈ γ.2.taken) :
    (t, i) ∈ γ.2.succeeded ∨ (t, i) ∈ γ.2.reported ∨ (¬ ∃ c f, P.Live t c f) ∨
      (¬ P.Over t ∧ (γ.1.session t).observe Stage.owing = some i) := by
  have hA : Accounted V P γ := by
    refine Pool.Run.invariant (I := Accounted V) (.init h₀) ?_ hr
    rintro P γ e P' hA ⟨hpub, hheard⟩ hs
    exact hA.step hs hpub hheard
  rcases hA.accounted _ htaken with hsucc | hrep | hdead | howe
  · exact .inl hsucc
  · exact .inr (.inl hrep)
  · exact .inr (.inr (.inl hdead))
  · by_cases hlive : ∃ c f, P.Live t c f
    swap
    · exact .inr (.inr (.inl hlive))
    refine .inr (.inr (.inr ⟨fun hover ↦ ?_, howe⟩))
    obtain ⟨c, f, p, hp⟩ := hlive
    obtain ⟨a, rfl⟩ := hover _ p hp rfl
    have hexit : (γ.1.session t).Exit (.inl a) := hA.sound.obeying t _ _ hp rfl
    rw [Session.owing_of_exit hexit] at howe
    cases howe

/-- The command takes effect, and its reply is lost. -/
def Choice.losing : Choice := ⟨.lost (.reply "i/o timeout"), .zero, 0, .input⟩

namespace Demo

/-- Where a schedule leads that satisfies `G`, with the account of what was taken. -/
def accounts (G : History → Pool service.machine → Event service.machine → Prop)
    [∀ h P e, Decidable (G h P e)] (ls : List (Pool.Label service.machine)) :
    Option (Pool service.machine × History × Account) :=
  Pool.schedule service.account (fun γ P e ↦ Service.Public e ∧ G γ.1 P e) ls
    (idle, (.init service idle.state.server, ⟨[], [], []⟩))

/-- Client `b` acknowledges the entry `1-0`, fails to add it again and reports that. -/
def gapReported : Pool service.machine × History × Account :=
  (accounts (fun h P e ↦ AcksHeard service h P e) (acknowledged ++ [.op 1 .failing] ++ ops 1 2)).get
    (by decide +kernel)

/-- Client `b` acknowledges the entry `1-0` and does not hear of it. -/
def ackUnheard : Pool service.machine × History × Account :=
  (accounts (fun _ _ _ ↦ True) (handed ++ judging ++ [.op 1 .losing] ++ ops 1 1)).get
    (by decide +kernel)

end Demo

/-- An entry that could not be added again is reported. -/
theorem taken_accounted_reported :
    (1, ⟨1, 0⟩) ∈ Demo.gapReported.2.2.taken ∧ (1, ⟨1, 0⟩) ∉ Demo.gapReported.2.2.succeeded ∧
      ((1, ⟨1, 0⟩) ∈ Demo.gapReported.2.2.succeeded ∨
        (1, ⟨1, 0⟩) ∈ Demo.gapReported.2.2.reported ∨
        (¬ ∃ c f, Demo.gapReported.1.Live 1 c f) ∨ (¬ Demo.gapReported.1.Over 1 ∧
          (Demo.gapReported.2.1.session 1).observe Stage.owing = some ⟨1, 0⟩)) := by
  have htaken : (1, ⟨1, 0⟩) ∈ Demo.gapReported.2.2.taken := by decide +kernel
  exact ⟨htaken, by decide +kernel, taken_accounted Demo.service Demo.idle Demo.gapReported.1
    Demo.gapReported.2 Demo.fresh_idle (Pool.run_of_isSome _) 1 ⟨1, 0⟩ htaken⟩

/-- **An entry is lost without a report.**  The `XACK` of a recoverer takes effect but its
reply is lost; the recoverer returns an error, having added and reported nothing. -/
theorem taken_unreported :
    Fresh Demo.service Demo.idle ∧
      Pool.Run Demo.service.account (fun _ _ e ↦ Service.Public e ∧ True)
        (Demo.idle, (.init Demo.service Demo.idle.state.server, ⟨[], [], []⟩))
        Demo.ackUnheard.1 Demo.ackUnheard.2 ∧
      (1, ⟨1, 0⟩) ∈ Demo.ackUnheard.2.2.taken ∧ Demo.ackUnheard.2.2.succeeded = [] ∧
      Demo.ackUnheard.2.2.reported = [] ∧ Demo.ackUnheard.1.alive 1 = true ∧
      Demo.ackUnheard.1.Over 1 :=
  ⟨Demo.fresh_idle, Pool.run_of_isSome _, by decide +kernel, by decide +kernel, by decide +kernel,
    by decide +kernel, Pool.over_of_isOver (by decide +kernel)⟩

end RedisStreamClient.Impl
