import RedisStreamClient.Impl.Effects
import RedisStreamClient.Lib.Schedule

/-!
# What goroutines know about the LBS

A goroutine acts on replies that may be out of date.  What it still knows then are the
facts that no event can undo: an entry that was delivered stays delivered, one that
left the pending list stays off it, the fields of an entry never change.  `Grows` is
the order in which such facts are monotone, `Knows` the facts that each `Session` rests
on, and `Sound` the invariant of every run that they hold.
-/

namespace RedisStreamClient.Impl

open RedisStreamClient.Lib RedisStreamClient.Errs RedisStreamClient.Notifs
open RedisStreamClient.Redis

/-! ## Facts that last -/

/-- What changes in one direction only. -/
structure Grows (V : Service) (s s' : Server) (h h' : History) : Prop where
  /-- IDs are assigned upwards. -/
  top_le : (V.stream s).top ≤ (V.stream s').top
  /-- Entries are delivered upwards. -/
  delivered_le : (V.pending s).top ≤ (V.pending s').top
  /-- No entry comes back to the LBS, nor changes in it. -/
  lookup_eq : ∀ i ≤ (V.stream s).top, ∀ v, (V.stream s').lookup i = some v →
    (V.stream s).lookup i = some v
  /-- No entry comes back to the pending list. -/
  mem_pending : ∀ i ≤ (V.pending s).top, i ∈ V.pending s' → i ∈ V.pending s
  /-- Entries keep their fields. -/
  added_eq : ∀ i ≤ (V.stream s).top, h'.added i = h.added i
  /-- Entries keep their origin. -/
  origin_eq : ∀ i ≤ (V.stream s).top, h'.origin i = h.origin i
  /-- An entry is handed out once. -/
  consumer_eq : ∀ i ≤ (V.pending s).top, h'.consumer i = h.consumer i

section Grows

variable {V : Service} {h : History} {P P' : Pool V.machine} {e : Event V.machine} {s' : Server}

/-- **Every event is monotone.** -/
theorem Change.grows (hc : Change V h P e s') :
    Grows V P.state.server s' h (h.update V P e) := by
  have hconsumer : History.handedOut V e = none → (h.update V P e).consumer = h.consumer := by
    intro hout
    simp [History.update, hout]
  have hadded : h.entryAdded V e = none → (h.update V P e).added = h.added := by
    intro hadd
    simp [History.update, hadd]
  have horigin : h.entryAdded V e = none → (h.update V P e).origin = h.origin := by
    intro hadd
    simp [History.update, hadd]
  cases hc with
  | same hs hp hadd hout _ =>
    refine ⟨?_, ?_, ?_, ?_, ?_, ?_, ?_⟩ <;>
      simp +contextual [hs, hp, hconsumer hout, hadded hadd, horigin hadd]
  | push i v x hlt hs hp hadd hout _ =>
    have hne : ∀ j ≤ (V.stream P.state.server).top, j ≠ i := by
      rintro j hj rfl
      exact absurd hlt hj.not_gt
    refine ⟨?_, ?_, ?_, ?_, ?_, ?_, ?_⟩
    · rw [hs]
      exact hlt.le
    · rw [hp]
    · intro j hj w hw
      rwa [hs, Log.lookup_push_of_ne _ (hne j hj)] at hw
    · simp [hp]
    · intro j hj
      simp [History.update, hadd, Function.update_of_ne (hne j hj)]
    · intro j hj
      simp [History.update, hadd, Function.update_of_ne (hne j hj)]
    · simp [hconsumer hout]
  | del t i id hid he hs hp hadd hout _ =>
    have herase : ∀ j v, (V.stream s').lookup j = some v →
        (V.stream P.state.server).lookup j = some v := by
      intro j v hv
      rw [hs] at hv
      exact Log.lookup_of_lookup_erase hv
    refine ⟨?_, ?_, fun j _ ↦ herase j, ?_, ?_, ?_, ?_⟩ <;>
      simp +contextual [hs, hp, hconsumer hout, hadded hadd, horigin hadd]
  | ack t i _ hs hp hadd hout =>
    refine ⟨?_, ?_, ?_, ?_, ?_, ?_, ?_⟩ <;>
      simp +contextual [hs, hp, hconsumer hout, hadded hadd, horigin hadd]
  | deliver n hout hs hp hadd _ =>
    refine ⟨?_, ?_, ?_, ?_, ?_, ?_, ?_⟩
    · rw [hs]
    · rw [hp]
      exact Log.le_top_append
    · simp [hs]
    · intro i hi hm
      rw [hp, Server.deliver, Log.mem_append] at hm
      refine hm.resolve_right ?_
      rintro ⟨v, hv⟩
      exact absurd (P.state.server.top_lt_of_mem_handedTo hv) hi.not_gt
    · simp [hadded hadd]
    · simp [horigin hadd]
    · intro i hi
      simp [History.update, hout, hi.not_gt]

end Grows

/-- No entry comes back to the LBS. -/
theorem Grows.mem_stream {V : Service} {s s' : Server} {h h' : History} (g : Grows V s s' h h')
    {i : StreamID} (hi : i ≤ (V.stream s).top) (hm : i ∈ V.stream s') : i ∈ V.stream s := by
  obtain ⟨v, hv⟩ := Log.mem_iff_lookup.1 hm
  exact Log.mem_iff_lookup.2 ⟨v, g.lookup_eq i hi v hv⟩

section Facts

variable (V : Service) (s : Server) (h : History)

/-- The entry was delivered and is pending no more. -/
def Settled (i : StreamID) : Prop := i ≤ (V.pending s).top ∧ i ∉ V.pending s

/-- What a recoverer read under an ID: if there still is such an entry, it has these
fields. -/
def Read (e : LBSEntry) : Prop :=
  ∀ i, StreamID.ofText? e.id = some i →
    i ≤ (V.stream s).top ∧ (i ∈ V.stream s → h.added i = some e.values)

/-- The recoverer took the entry off the pending list, and has its fields. -/
def Won (e : LBSEntry) : Prop :=
  ∃ i, StreamID.ofText? e.id = some i ∧ Settled V s i ∧ h.added i = some e.values

/-- The message was handed to client `c`. -/
def Handed (c : Nat) (m : XMessage) : Prop :=
  ∃ i, m.id = i.text ∧ i ≤ (V.pending s).top ∧ h.added i = some m.values ∧
    h.consumer i = some (V.client c).consumerID

/-- The record is that of an entry that client `c` was handed. -/
def Owns (c : Nat) (info : StreamLocksInfo) : Prop :=
  ∃ m, Handed V s h c m ∧ m.id = info.lbsInfo.idInLBS ∧
    (LBSEntry.mk m.id m.values).dataStreamName V.json = .ok info.lbsInfo.dataStreamName ∧
    info.redsyncMutex = ⟨info.lbsInfo.formMutexKey, (V.client c).consumerID⟩

/-- The entry of the record is settled. -/
def SettledRecord (info : StreamLocksInfo) : Prop :=
  ∀ i : StreamID, info.lbsInfo.idInLBS = i.text → Settled V s i

/-- What a recoverer knows. -/
def KnowsStage : Stage → Prop
  | .found e => Read V s h e
  | .dead e name => Read V s h e ∧ e.dataStreamName V.json = .ok name
  | .won e name => Won V s h e ∧ (∀ n, name = some n ↔ e.dataStreamName V.json = .ok n)
  | .added e _ | .cleared e _ | .gap e | .dropped e => Won V s h e
  | .idle | .missing _ | .lost | .skipped | .failed => True

/-- What a goroutine of client `c` knows. -/
def Knows (c : Nat) : Session → Prop
  | .recover _ stage => KnowsStage V s h stage
  | .popped info => Owns V s h c info
  | .acked info | .deleted info => Owns V s h c info ∧ SettledRecord V s info
  | .batch todo => ∀ m ∈ todo, Handed V s h c m
  | .locked m name todo =>
    Handed V s h c m ∧ (LBSEntry.mk m.id m.values).dataStreamName V.json = .ok name ∧
      ∀ m ∈ todo, Handed V s h c m
  | .recorded info todo | .announced info todo =>
    Owns V s h c info ∧ ∀ m ∈ todo, Handed V s h c m
  | .extender info | .extending info | .disowned info | .leaving info | .clearing info =>
    Owns V s h c info
  | .finishing | .over | .stopped | .broker => True

end Facts

section Mono

variable {V : Service} {s s' : Server} {h h' : History} {c : Nat}

theorem Settled.mono (g : Grows V s s' h h') {i : StreamID} (hi : Settled V s i) :
    Settled V s' i :=
  ⟨hi.1.trans g.delivered_le, fun hm ↦ hi.2 (g.mem_pending i hi.1 hm)⟩

theorem Read.mono (g : Grows V s s' h h') {e : LBSEntry} (he : Read V s h e) :
    Read V s' h' e := by
  intro i hi
  obtain ⟨htop, hv⟩ := he i hi
  refine ⟨htop.trans g.top_le, fun hm ↦ ?_⟩
  rw [g.added_eq i htop]
  exact hv (g.mem_stream htop hm)

variable (hle : (V.pending s).top ≤ (V.stream s).top)

include hle

theorem Won.mono (g : Grows V s s' h h') {e : LBSEntry} (he : Won V s h e) : Won V s' h' e := by
  obtain ⟨i, hi, hset, hv⟩ := he
  exact ⟨i, hi, hset.mono g, by rw [g.added_eq i (hset.1.trans hle), hv]⟩

theorem Handed.mono (g : Grows V s s' h h') {m : XMessage} (hm : Handed V s h c m) :
    Handed V s' h' c m := by
  obtain ⟨i, hi, hd, hv, hc⟩ := hm
  exact ⟨i, hi, hd.trans g.delivered_le, by rw [g.added_eq i (hd.trans hle), hv],
    by rw [g.consumer_eq i hd, hc]⟩

theorem Owns.mono (g : Grows V s s' h h') {info : StreamLocksInfo} (hi : Owns V s h c info) :
    Owns V s' h' c info := by
  obtain ⟨m, hm, hrest⟩ := hi
  exact ⟨m, hm.mono hle g, hrest⟩

/-- **Knowledge lasts.** -/
theorem Knows.mono (g : Grows V s s' h h') {q : Session} (hq : Knows V s h c q) :
    Knows V s' h' c q := by
  have htodo : ∀ {todo : List XMessage}, (∀ m ∈ todo, Handed V s h c m) →
      ∀ m ∈ todo, Handed V s' h' c m := fun ht m hm ↦ (ht m hm).mono hle g
  have hset : ∀ {info : StreamLocksInfo}, SettledRecord V s info → SettledRecord V s' info :=
    fun hi i heq ↦ (hi i heq).mono g
  cases q with
  | recover scope stage =>
    cases stage with
    | found e => exact Read.mono g hq
    | dead e name => exact ⟨hq.1.mono g, hq.2⟩
    | won e name => exact ⟨hq.1.mono hle g, hq.2⟩
    | added e toDLQ => exact Won.mono hle g hq
    | cleared e toDLQ => exact Won.mono hle g hq
    | gap e => exact Won.mono hle g hq
    | dropped e => exact Won.mono hle g hq
    | _ => trivial
  | popped info => exact Owns.mono hle g hq
  | acked info => exact ⟨hq.1.mono hle g, hset hq.2⟩
  | deleted info => exact ⟨hq.1.mono hle g, hset hq.2⟩
  | batch todo => exact htodo hq
  | locked m name todo => exact ⟨hq.1.mono hle g, hq.2.1, htodo hq.2.2⟩
  | recorded info todo => exact ⟨hq.1.mono hle g, htodo hq.2⟩
  | announced info todo => exact ⟨hq.1.mono hle g, htodo hq.2⟩
  | extender info => exact Owns.mono hle g hq
  | extending info => exact Owns.mono hle g hq
  | disowned info => exact Owns.mono hle g hq
  | leaving info => exact Owns.mono hle g hq
  | clearing info => exact Owns.mono hle g hq
  | _ => trivial

end Mono

/-! ## The invariant -/

/-- **What holds in every reachable state of a service.** -/
structure Sound (V : Service) (P : Pool V.machine) (h : History) : Prop where
  /-- Every goroutine keeps its contract. -/
  obeying : V.contract.Obeying P h.session
  /-- Pending entries are in the LBS. -/
  pending_sub : ∀ i ∈ V.pending P.state.server, i ∈ V.stream P.state.server
  /-- Only entries of the LBS were delivered. -/
  delivered_le : (V.pending P.state.server).top ≤ (V.stream P.state.server).top
  /-- The history has the fields of every entry. -/
  added_eq : ∀ i v, (V.stream P.state.server).lookup i = some v → h.added i = some v
  /-- Every goroutine does what it was started for. -/
  plays : ∀ t c f, P.Live t c f → (h.session t).Plays f
  /-- Every goroutine knows what its session says. -/
  knows : ∀ t c f, P.Live t c f → Knows V P.state.server h c (h.session t)
  /-- Every record is that of an entry its client was handed. -/
  records : ∀ c name info, (P.state.clients c).streamLocks.lookup name = some info →
    Owns V P.state.server h c info ∧ info.lbsInfo.dataStreamName = name

namespace Sound

variable {V : Service} {h : History} {P P' : Pool V.machine} {e : Event V.machine}

section Next

variable {t c : Nat} {w' : World} {ch : Choice} {g : Option Call} {h' : History}

/-- What a lookup of an entry teaches. -/
theorem knows_xrange (hS : Sound V P h) {id : String} {r : Except Err (List XMessage)}
    (hx : World.exec c (.xrange V.lbs id id) ch P.state = some (r, w', g)) :
    KnowsStage V P.state.server h (.onRange id r) := by
  obtain ⟨-, hr⟩ := World.exec_xrange hx
  rcases r with err | _ | ⟨m, ms⟩
  · trivial
  · trivial
  · have hr' : P.state.server.xrange V.lbs id id = .ok (m :: ms) := by
      rcases hr with hr | ⟨err, herr⟩
      · exact hr.symm
      · simp at herr
    intro i hi
    obtain ⟨htop, hv⟩ := Server.xrange_head _ hr' hi
    refine ⟨htop, fun hm ↦ ?_⟩
    obtain ⟨v, hlook⟩ := Log.mem_iff_lookup.1 hm
    rw [hS.added_eq i v hlook, hv v hlook]

/-- An acknowledgement that counted wins the entry. -/
theorem won_of_xack (hS : Sound V P h) {e : LBSEntry} {k : Int} (hk : k ≠ 0)
    (hx : World.exec c (.xack V.lbs V.group e.id) ch P.state = some (.ok k, w', g))
    (he : Read V P.state.server h e) : Won V w'.server h e := by
  obtain ⟨-, ⟨-, -, err, herr⟩ | ⟨-, rfl, ⟨-, hr⟩ | ⟨err, herr⟩⟩⟩ := World.exec_xack hx
  · simp at herr
  · rcases P.state.server.xack_cases V.lbs V.group e.id with ⟨i, hi, hm, heq⟩ | ⟨-, -, hz | hz⟩
    · have hp : V.pending (P.state.server.xack V.lbs V.group e.id).2 =
          (V.pending P.state.server).erase i := by
        rw [heq]; exact Service.pending_setGroup
      refine ⟨i, hi, ⟨?_, ?_⟩, (he i hi).2 (hS.pending_sub i hm)⟩
      · have htop : i ≤ (V.pending P.state.server).top := Log.le_top_of_mem hm
        rwa [World.server_setServer, hp, Log.top_erase]
      · rw [World.server_setServer, hp]
        simp
    · simp [hz] at hr
      exact absurd hr hk
    · simp [hz] at hr
  · simp at herr

/-- An acknowledgement that was answered settles the entry of a record. -/
theorem settled_of_xack {info : StreamLocksInfo} {k : Int}
    (hx : World.exec c (.xack V.lbs V.group info.lbsInfo.idInLBS) ch P.state =
      some (.ok k, w', g))
    (ho : Owns V P.state.server h c info) : SettledRecord V w'.server info := by
  intro i heq
  have hd : i ≤ (V.pending P.state.server).top := by
    obtain ⟨m, ⟨j, hj, hd, -⟩, hm, -⟩ := ho
    obtain rfl : j = i := StreamID.text_injective (by rw [← hj, hm, heq])
    exact hd
  obtain ⟨-, ⟨-, -, err, herr⟩ | ⟨-, rfl, -⟩⟩ := World.exec_xack hx
  · simp at herr
  rcases P.state.server.xack_cases V.lbs V.group info.lbsInfo.idInLBS with
    ⟨j, hj, hm, hs⟩ | ⟨hj, hs, -⟩
  · obtain rfl : i = j := by simpa [heq] using hj
    have hp : V.pending (P.state.server.xack V.lbs V.group info.lbsInfo.idInLBS).2 =
        (V.pending P.state.server).erase i := by
      rw [hs]; exact Service.pending_setGroup
    rw [World.server_setServer, Settled, hp]
    exact ⟨hd, by simp⟩
  · rw [World.server_setServer, hs]
    exact ⟨hd, hj i (by simp [heq])⟩

/-- What a delivery hands out. -/
theorem handed_of_xreadGroup (hS : Sound V P h)
    {streams : List (String × List XMessage)}
    (hx : World.exec c (.xreadGroup V.group (V.client c).consumerID V.lbs) ch P.state =
      some (.ok streams, w', g)) {m : XMessage} (hm : m ∈ streams.flatMap Prod.snd) :
    Handed V w'.server (h.update V P (.op (M := V.machine) t c
      (.xreadGroup V.group (V.client c).consumerID V.lbs) ch (.ok streams) g)) c m := by
  obtain ⟨hf, rfl, hstreams⟩ := World.exec_xreadGroup_ok hx
  rw [hstreams] at hm
  obtain ⟨⟨i, v⟩, hmem, rfl⟩ := List.mem_map.1 hm
  obtain ⟨hent, hlt⟩ := List.mem_filter.1 hmem
  have hlt' : (V.pending P.state.server).top < i := of_decide_eq_true hlt
  have hadd := hS.added_eq i v (Log.lookup_eq_some_iff.2 hent)
  have hin : i ∈ V.stream P.state.server := ⟨v, hent⟩
  refine ⟨i, rfl, ?_, ?_, ?_⟩
  · rw [World.server_setServer, Service.pending_setGroup]
    exact Log.le_top_append_of_mem (List.mem_map.2 ⟨(i, v), hmem, rfl⟩)
  · exact hadd
  · simp [History.update, History.handedOut, hf, hin, hlt']

/-- **The goroutine that moves knows what its next session says.** -/
theorem knows_next (hS : Sound V P h) {f : Call} {o : Op} {r : o.Reply} (hl : P.Live t c f)
    (hok : (h.session t).Ok V.json (V.client c) o)
    (hx : World.exec c o ch P.state = some (r, w', g))
    (hgr : Grows V P.state.server w'.server h
      (h.update V P (.op (M := V.machine) t c o ch r g))) :
    Knows V w'.server (h.update V P (.op (M := V.machine) t c o ch r g)) c
      ((h.session t).next V.json (V.client c) o r) := by
  have hold := hS.knows t c f hl
  have hkeep := hold.mono hS.delivered_le hgr
  revert hok hold hkeep
  generalize h.session t = q
  intro hok hold hkeep
  cases o with
  | xrange stream start stop =>
    obtain ⟨hstream, rfl, scope, stage, rfl, -, -⟩ := hok
    rw [V.lbsName_eq] at hstream
    subst hstream
    have hrange : Knows V P.state.server h c (.recover scope (.onRange start r)) :=
      hS.knows_xrange hx
    exact hrange.mono hS.delivered_le hgr
  | existsKey key =>
    obtain ⟨scope, e, name, rfl, hn, -⟩ := hok
    rcases r with err | k
    · trivial
    · show KnowsStage _ _ _ (Stage.onExists V.json (.found e) (.ok k))
      by_cases hk : 0 < k
      · simp only [Stage.onExists, hn, hk, if_true]
        trivial
      · simp only [Stage.onExists, hn, hk, if_false]
        exact ⟨hkeep, hn⟩
  | xack stream group id =>
    obtain ⟨hstream, hgroup, ⟨scope, stage, rfl, hstage⟩ | ⟨info, rfl, rfl⟩⟩ := hok
    · rw [V.lbsName_eq] at hstream
      rw [V.lbsGroupName_eq] at hgroup
      subst hstream hgroup
      rcases r with err | k
      · cases stage <;> trivial
      cases stage with
      | found e =>
        obtain ⟨rfl, err, hn⟩ := hstage
        show KnowsStage _ _ _ (if k = 0 then .lost else .won e none)
        split
        · trivial
        · next hk => exact ⟨hS.won_of_xack hk hx hold, by simp [hn]⟩
      | dead e name =>
        obtain rfl : id = e.id := hstage
        show KnowsStage _ _ _ (if k = 0 then .lost else .won e (some name))
        split
        · trivial
        · next hk => exact ⟨hS.won_of_xack hk hx hold.1, by simp [hold.2]⟩
      | _ => trivial
    · rw [V.lbsName_eq] at hstream
      rw [V.lbsGroupName_eq] at hgroup
      subst hstream hgroup
      rcases r with err | k
      · trivial
      · exact ⟨hkeep, settled_of_xack hx hold⟩
  | xadd stream maxLen v =>
    obtain ⟨scope, stage, rfl, hadd⟩ := hok
    cases stage with
    | won e name => rcases r with err | i <;> exact hkeep.1
    | _ => exact hadd.elim
  | xdel stream id =>
    obtain ⟨-, ⟨scope, stage, rfl, hdel⟩ | ⟨info, rfl, -⟩⟩ := hok
    · cases stage with
      | added e toDLQ => exact hkeep
      | won e name => exact hkeep.1
      | _ => exact hdel.elim
    · rcases r with err | k
      · trivial
      · exact hkeep
  | xpending stream group idle start stop count =>
    obtain ⟨-, -, hrest⟩ := hok
    cases q with
    | recover scope stage => rcases r with err | ids <;> exact hkeep
    | _ => exact hrest.elim
  | xreadGroup group consumer stream =>
    obtain ⟨hgroup, rfl, hstream, rfl⟩ := hok
    rw [V.lbsName_eq] at hstream
    rw [V.lbsGroupName_eq] at hgroup
    subst hstream hgroup
    rcases r with err | streams
    · exact hkeep
    · intro m hm
      exact hS.handed_of_xreadGroup hx hm
  | lock m =>
    obtain ⟨message, name, todo, rfl, hn, -⟩ := hok
    rcases r with _ | err
    · show Knows _ _ _ _ (Session.onLock V.json (.batch (message :: todo)) none)
      simp only [Session.onLock, hn]
      exact ⟨hkeep _ List.mem_cons_self, hn, fun m' hm' ↦ hkeep _ (List.mem_cons_of_mem _ hm')⟩
    · trivial
  | putStreamLocks name info =>
    obtain ⟨message, todo, rfl, hinfo, hmutex⟩ := hok
    obtain ⟨hm, hn, htodo⟩ := hkeep
    refine ⟨⟨message, hm, ?_, ?_, ?_⟩, htodo⟩
    · rw [hinfo]
    · rw [hinfo]; exact hn
    · rw [hmutex, hinfo]; rfl
  | popStreamLocksInfo name =>
    obtain ⟨hr, -⟩ := World.exec_popStreamLocksInfo hx
    rcases hok with rfl | ⟨info, rfl, -⟩
    · rcases r with _ | info
      · trivial
      · exact (hS.records c name info hr.symm).1.mono hS.delivered_le hgr
    · exact hkeep
  | extend m =>
    obtain ⟨info, rfl, -⟩ := hok
    rcases r with ⟨_ | _, _ | err⟩ <;> exact hkeep
  | isStreamProcessingDone name =>
    obtain ⟨info, rfl | rfl | rfl, -⟩ := hok <;> rcases r with _ | _ <;> exact hkeep
  | isContextDone => rcases r with _ | _ <;> cases q <;> exact hkeep
  | goStartExtendingKey m lbsInfo info =>
    obtain ⟨todo, rfl | rfl⟩ := hok <;> exact hkeep.2
  | broker o =>
    cases o with
    | select ctx m => cases q <;> exact hkeep
    | _ => exact hkeep
  | record m =>
    cases m with
    | ackAddGap stream =>
      obtain ⟨scope, e, rfl⟩ := hok
      trivial
    | _ => exact hkeep
  | unlock m => trivial
  | sleep d => exact hkeep
  | waitOrDone d => exact hkeep

end Next

/-- A new goroutine knows what it was told. -/
theorem knows_start (hS : Sound V P h) (hs : Pool.Step P e P')
    (hpub : Service.Public e) {c : Nat} {f : Call}
    (hst : e.starts = some (c, f))
    (hgr : Grows V P.state.server P'.state.server h (h.update V P e)) :
    Knows V P'.state.server (h.update V P e) c (.start f) := by
  cases e with
  | op t c' o ch r g =>
    obtain ⟨g', rfl, hg⟩ := Option.map_eq_some_iff.1 hst
    obtain ⟨rfl, rfl⟩ := Prod.mk.inj hg
    obtain ⟨m, l, i, rfl, rfl⟩ := World.exec_fork hs.op_exec
    obtain ⟨f, hl⟩ := hs.op_live
    have hkeep := (hS.knows _ _ _ hl).mono hS.delivered_le hgr
    obtain ⟨todo, hq | hq⟩ : (h.session t).Ok V.json (V.client c') (.goStartExtendingKey m l i) :=
      hS.obeying.ok hs
    · rw [hq] at hkeep
      exact hkeep.1
    · rw [hq] at hkeep
      exact hkeep.1
  | start c' f' =>
    obtain ⟨rfl, rfl⟩ := Prod.mk.inj (Option.some.inj hst)
    cases f' with
    | startExtendingKey m l i => exact hpub.elim
    | readLBSStream n d => exact fun m hm ↦ absurd hm (by simp)
    | _ => trivial
  | _ => simp [Event.starts] at hst

/-- Only settled entries are deleted. -/
theorem settled_of_xdel (hS : Sound V P h) {t c : Nat} {id : String} {ch : Choice}
    {r : Except Err Int} {f : Option Call} {i : StreamID}
    (hs : Pool.Step P (.op (M := V.machine) t c (.xdel V.lbs id) ch r f) P')
    (hi : StreamID.ofText? id = some i) : Settled V P.state.server i := by
  obtain ⟨f', hl⟩ := hs.op_live
  have hkn := hS.knows _ _ _ hl
  obtain ⟨-, ⟨scope, stage, hq, hdel⟩ | ⟨info, hq, rfl⟩⟩ :
    (h.session t).Ok V.json (V.client c) (.xdel V.lbs id) := hS.obeying.ok hs
  · rw [hq] at hkn
    cases stage with
    | added e toDLQ =>
      obtain rfl : id = e.id := hdel
      obtain ⟨j, hj, hset, -⟩ := hkn
      obtain rfl : i = j := Option.some.inj (hi.symm.trans hj)
      exact hset
    | won e name => exact absurd hdel.1 (V.dlqStream_ne_empty c)
    | _ => exact hdel.elim
  · rw [hq] at hkn
    obtain ⟨⟨m, ⟨j, hj, -⟩, hm, -⟩, hset⟩ := hkn
    have hid : info.lbsInfo.idInLBS = j.text := by rw [← hm, hj]
    obtain rfl : j = i := by simpa [hid] using hi
    exact hset j hid

/-- **The invariant is kept by every event**, as long as only public calls are made from
outside. -/
theorem step (hS : Sound V P h) (hs : Pool.Step P e P')
    (hpub : Service.Public e) : Sound V P' (h.update V P e) := by
  have hch := change hS.obeying hs
  have hgr := hch.grows
  refine ⟨hS.obeying.step hs, ?_, ?_, ?_, ?_, ?_, ?_⟩
  · -- pending entries are in the LBS
    intro i hi
    cases hch with
    | same hst hp => exact hst ▸ hS.pending_sub i (hp ▸ hi)
    | push j v x hlt hst hp =>
      rw [hst, Log.mem_push]
      exact .inl (hS.pending_sub i (hp ▸ hi))
    | del t j id hid he hst hp =>
      obtain ⟨c, ch, r, f, rfl⟩ := he
      have hset := hS.settled_of_xdel hs hid
      rw [hst, Log.mem_erase]
      rw [hp] at hi
      exact ⟨hS.pending_sub i hi, fun heq ↦ hset.2 (heq ▸ hi)⟩
    | ack t j _ hst hp =>
      rw [hp, Log.mem_erase] at hi
      exact hst ▸ hS.pending_sub i hi.1
    | deliver n _ hst hp =>
      rw [hp, Server.deliver, Log.mem_append] at hi
      rw [hst]
      rcases hi with hi | ⟨v, hv⟩
      · exact hS.pending_sub i hi
      · obtain ⟨d, hd, hdi⟩ := List.mem_map.1 hv
        obtain ⟨rfl, -⟩ := Prod.mk.inj hdi
        exact ⟨d.2, List.mem_of_mem_filter hd⟩
  · -- only entries of the LBS were delivered
    cases hch with
    | same hst hp => rw [hst, hp]; exact hS.delivered_le
    | push j v x hlt hst hp => rw [hst, hp]; exact hS.delivered_le.trans hlt.le
    | del t j id hid he hst hp => rw [hst, hp]; exact hS.delivered_le
    | ack t j _ hst hp => rw [hst, hp]; exact hS.delivered_le
    | deliver n _ hst hp =>
      rw [hst, hp]
      refine Log.top_append_le hS.delivered_le ?_
      intro d hd
      obtain ⟨d', hd', rfl⟩ := List.mem_map.1 hd
      exact Log.le_top _ _ (List.mem_of_mem_filter hd')
  · -- the history has the fields of every entry
    intro i v hv
    cases hch with
    | push j w x hlt hst hp hadd =>
      rw [hst] at hv
      by_cases hij : i = j
      · subst hij
        rw [Log.lookup_push_self] at hv
        simpa [History.update, hadd] using hv
      · rw [Log.lookup_push_of_ne _ hij] at hv
        simpa [History.update, hadd, Function.update_of_ne hij] using hS.added_eq i v hv
    | same hst hp hadd => simpa [History.update, hadd] using hS.added_eq i v (hst ▸ hv)
    | del t j id hid he hst hp hadd =>
      rw [hst] at hv
      simpa [History.update, hadd] using hS.added_eq i v (Log.lookup_of_lookup_erase hv)
    | ack t j _ hst hp hadd => simpa [History.update, hadd] using hS.added_eq i v (hst ▸ hv)
    | deliver n _ hst hp hadd => simpa [History.update, hadd] using hS.added_eq i v (hst ▸ hv)
  · refine hS.obeying.each (I := fun _ ↦ Session.Plays) hs hS.plays ?_ ?_ ?_
    · intro t c f _ _ _ hr
      exact hr
    · intro t c f o ch r g _ _ hok _ hr
      exact (Session.role_next hok r).trans hr
    · intro c f _
      exact Session.plays_start f
  · refine hS.obeying.each hs hS.knows ?_ ?_ ?_
    · intro t c f _ _ _ hk
      exact hk.mono hS.delivered_le hgr
    · rintro t c f o ch r g rfl hl hok hx -
      exact hS.knows_next hl hok hx hgr
    · intro c f hst
      exact hS.knows_start hs hpub hst hgr
  · intro c name info hrec
    rcases record_step hs hrec with hold | ⟨t, ch, r, f, rfl⟩
    · obtain ⟨ho, hname⟩ := hS.records c name info hold
      exact ⟨ho.mono hS.delivered_le hgr, hname⟩
    · obtain ⟨f', hl⟩ := hs.op_live
      have hkn := (hS.knows _ _ _ hl).mono hS.delivered_le hgr
      obtain ⟨m, todo, hq, hinfo, hmutex⟩ :
        (h.session t).Ok V.json (V.client c) (.putStreamLocks name info) := hS.obeying.ok hs
      rw [hq] at hkn
      obtain ⟨hm, hn, -⟩ := hkn
      refine ⟨⟨m, hm, ?_, ?_, ?_⟩, ?_⟩
      · rw [hinfo]
      · rw [hinfo]; exact hn
      · rw [hmutex, hinfo]; rfl
      · rw [hinfo]

end Sound

/-! ## Runs -/

/-- The group was just created and nothing runs yet. -/
structure Fresh (V : Service) (P : Pool V.machine) : Prop where
  /-- Nothing runs. -/
  threads_eq : P.threads = []
  /-- Nothing is pending. -/
  not_mem_pending : ∀ i, i ∉ V.pending P.state.server
  /-- The group starts within the LBS. -/
  delivered_le : (V.pending P.state.server).top ≤ (V.stream P.state.server).top
  /-- No client has a record. -/
  streamLocks_eq : ∀ c, (P.state.clients c).streamLocks = ∅

/-- A run of the service with its history, all of whose events satisfy `G`. -/
def Service.Run (V : Service) (G : History → Pool V.machine → Event V.machine → Prop)
    (P₀ P : Pool V.machine) (h : History) : Prop :=
  Pool.Run (History.update V) (fun h P e ↦ Service.Public e ∧ G h P e)
    (P₀, .init V P₀.state.server) P h

section Run

variable {V : Service} {P₀ P : Pool V.machine} {h : History}
  {G : History → Pool V.machine → Event V.machine → Prop}

theorem Fresh.not_live (h₀ : Fresh V P₀) {t c : Nat} {f : Call} : ¬ P₀.Live t c f := by
  rintro ⟨p, hp⟩
  simp [h₀.threads_eq] at hp

theorem Fresh.sound (h₀ : Fresh V P₀) : Sound V P₀ (.init V P₀.state.server) where
  obeying := by
    intro t th p ht
    simp [h₀.threads_eq] at ht
  pending_sub i hi := absurd hi (h₀.not_mem_pending i)
  delivered_le := h₀.delivered_le
  added_eq _ _ hv := hv
  plays _ _ _ hl := absurd hl h₀.not_live
  knows _ _ _ hl := absurd hl h₀.not_live
  records c name info hrec := by simp [h₀.streamLocks_eq] at hrec

/-- **The invariant rule for services.** -/
theorem Service.Run.invariant {I : Pool V.machine → History → Prop} (h₀ : Fresh V P₀)
    (hinit : I P₀ (.init V P₀.state.server))
    (hstep : ∀ P h e P', Sound V P h → Sound V P' (h.update V P e) → Service.Public e → G h P e →
      Pool.Step P e P' → I P h → I P' (h.update V P e))
    (hr : V.Run G P₀ P h) : Sound V P h ∧ I P h := by
  refine Pool.Run.invariant (I := fun P h ↦ Sound V P h ∧ I P h) ⟨h₀.sound, hinit⟩ ?_ hr
  rintro P h e P' ⟨hS, hI⟩ ⟨hpub, hG⟩ hs
  have hS' := hS.step hs hpub
  exact ⟨hS', hstep P h e P' hS hS' hpub hG hs hI⟩

end Run

/-! ## Schedules -/

section Schedule

variable (V : Service) (G : History → Pool V.machine → Event V.machine → Prop)
  [∀ h P e, Decidable (G h P e)]

/-- The state and the history that a schedule leads to, if all its events satisfy
`G`. -/
def Service.play (P₀ : Pool V.machine) (ls : List (Pool.Label V.machine)) :
    Option (Pool V.machine × History) :=
  Pool.schedule (History.update V) (fun h P e ↦ Service.Public e ∧ G h P e) ls
    (P₀, .init V P₀.state.server)

/-- Where a schedule that goes through leads. -/
def Service.reached (P₀ : Pool V.machine) (ls : List (Pool.Label V.machine))
    (h : (V.play G P₀ ls).isSome = true) : Pool V.machine × History :=
  (V.play G P₀ ls).get h

variable {V G}

theorem Service.run_reached {P₀ : Pool V.machine} {ls : List (Pool.Label V.machine)}
    (h : (V.play G P₀ ls).isSome = true) :
    V.Run G P₀ (V.reached G P₀ ls h).1 (V.reached G P₀ ls h).2 :=
  Pool.run_of_isSome h

end Schedule

/-- Nothing goes wrong, and an added entry gets the ID `i`. -/
def Choice.plain (i : StreamID := .zero) : Choice := ⟨.none, i, 0, .input⟩

/-- The command fails without effect. -/
def Choice.failing : Choice := ⟨.fail (.reply "connection refused"), .zero, 0, .input⟩

namespace Demo

/-- A service with client 0 called `a` and all others `b`, whose producers write the bare
name of the data stream. -/
def service : Service where
  json := ⟨fun payload ↦ .ok ⟨payload, ∅⟩⟩
  client c :=
    { serviceName := "demo", consumerID := if c = 0 then "a" else "b", hbInterval := 1000000000
      maxRetries := 5, initialRetryDelay := 100000000, maxRetryDelay := 30000000000
      recoveryConfig := ⟨10000000000, 30000000000, 1000, 3, "demo-input-dlq", 0⟩ }
  name := "demo"
  serviceName_eq _ := rfl
  dlqStream_ne_empty _ := by simp
  dlqStream_ne_lbs _ := by
    show "demo-input-dlq" ≠ "demo" ++ Configs.inputSuffix
    decide

/-- The service with scans of `batchSize` entries and `maxRetries` re-queues of a task. -/
def limited (batchSize maxRetries : Int) : Service where
  json := service.json
  client c := { service.client c with
    recoveryConfig := { (service.client c).recoveryConfig with
      batchSize := batchSize, maxRetries := maxRetries } }
  name := service.name
  serviceName_eq := service.serviceName_eq
  dlqStream_ne_empty := service.dlqStream_ne_empty
  dlqStream_ne_lbs := service.dlqStream_ne_lbs

/-- The service before anything happened. -/
def idle : Pool service.machine where
  state := ⟨⟨fun _ ↦ .empty .zero, fun _ _ ↦ .empty .zero, fun _ ↦ none, 0⟩, fun _ ↦ .new 10⟩
  threads := []

theorem fresh_idle : Fresh service idle where
  threads_eq := rfl
  not_mem_pending i := by rintro ⟨v, hv⟩; simp [Service.pending, idle, Log.empty] at hv
  delivered_le := le_rfl
  streamLocks_eq _ := rfl

/-- The fields of a producer's entry for a data stream. -/
def fields (name : String) : Values := Finmap.singleton Configs.lbsInput (.str name)

/-- The producer's entry `ms-0` for a data stream. -/
def produce (ms : Nat) (name : String) : Pool.Label service.machine :=
  .env (.produce "demo-input" ⟨ms, 0⟩ (fields name))

/-- The next operations of goroutine `t`, all going well. -/
def ops (t n : Nat) : List (Pool.Label service.machine) := List.replicate n (.op t .plain)

/-- Client `a` is handed the entry `1-0` of `orders`, locks it and starts its extender. -/
def owned : List (Pool.Label service.machine) :=
  [produce 1 "orders", .start 0 (.readLBSStream 0 0)] ++ ops 0 9

end Demo

end RedisStreamClient.Impl
