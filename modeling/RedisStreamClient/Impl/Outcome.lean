import Mathlib.Algebra.Group.Pi.Basic
import Mathlib.Algebra.Order.Group.Multiset
import RedisStreamClient.Impl.Knowledge
import RedisStreamClient.Lib.Transitions

/-!
# What an outcome of `reQueue` accounts for

`reQueue` returns an outcome and an error; the commands it ran are its effects on the
server.  Here the effects are counted from the states before and after each command,
over transition traces: a command meets whatever state the other clients left, it runs
or it fails without effect, and no state is related to the one before.

`Exit` lists the ways `reQueue` returns, each with its effects.  From it follow the
meaning of each outcome, of the result of `Claim`, and of the figures a reconciliation
scan records.
-/

namespace RedisStreamClient.Impl

open RedisStreamClient.Lib RedisStreamClient.Errs RedisStreamClient.Notifs
open RedisStreamClient.Redis

/-! ## Counting effects -/

/-- What a goroutine did, by its effects and its metrics. -/
@[ext] structure Tally where
  /-- How often an ID left the pending list of a stream's group. -/
  acked : String × String × StreamID → ℕ
  /-- How many entries a stream was given. -/
  added : String → ℕ
  /-- How often `RecordAckAddGap` was called. -/
  gaps : ℕ
  /-- How often the context was found to be done. -/
  stops : ℕ
  /-- The figures of the recorded reconciliation scans. -/
  scans : Multiset ScanCounts

namespace Tally

instance instZero : Zero Tally := ⟨⟨0, 0, 0, 0, 0⟩⟩

instance instAdd : Add Tally :=
  ⟨fun m n ↦ ⟨m.acked + n.acked, m.added + n.added, m.gaps + n.gaps, m.stops + n.stops,
    m.scans + n.scans⟩⟩

section

variable (m n : Tally)

@[simp] theorem acked_zero : (0 : Tally).acked = 0 := rfl
@[simp] theorem added_zero : (0 : Tally).added = 0 := rfl
@[simp] theorem gaps_zero : (0 : Tally).gaps = 0 := rfl
@[simp] theorem stops_zero : (0 : Tally).stops = 0 := rfl
@[simp] theorem scans_zero : (0 : Tally).scans = 0 := rfl
@[simp] theorem acked_add : (m + n).acked = m.acked + n.acked := rfl
@[simp] theorem added_add : (m + n).added = m.added + n.added := rfl
@[simp] theorem gaps_add : (m + n).gaps = m.gaps + n.gaps := rfl
@[simp] theorem stops_add : (m + n).stops = m.stops + n.stops := rfl
@[simp] theorem scans_add : (m + n).scans = m.scans + n.scans := rfl

end

instance instAddMonoid : AddMonoid Tally where
  add_assoc a b c := by ext <;> simp [add_assoc]
  zero_add a := by ext <;> simp
  add_zero a := by ext <;> simp
  nsmul := nsmulRec

/-- An ID left a pending list. -/
@[simps -fullyApplied] def ack (k : String × String × StreamID) : Tally :=
  { (0 : Tally) with acked := Pi.single k 1 }

/-- A stream was given an entry. -/
@[simps -fullyApplied] def add (stream : String) : Tally :=
  { (0 : Tally) with added := Pi.single stream 1 }

/-- `RecordAckAddGap` was called. -/
@[simps -fullyApplied] def gap : Tally := { (0 : Tally) with gaps := 1 }

/-- The context was found to be done. -/
@[simps -fullyApplied] def stop : Tally := { (0 : Tally) with stops := 1 }

/-- A scan was recorded. -/
@[simps -fullyApplied] def scan (m : ScanCounts) : Tally := { (0 : Tally) with scans := {m} }

end Tally

/-- What a metric counts as. -/
def Metric.tally : Metric → Tally
  | .ackAddGap _ => .gap
  | .reconciliationScan requeued skippedAlive dlqRouted =>
    .scan ⟨requeued, skippedAlive, dlqRouted⟩
  | _ => 0

/-- One command or other operation of a goroutine, with the state it met and the state
it left. -/
structure Transition where
  /-- The state it met. -/
  before : World
  /-- The operation. -/
  op : Op
  /-- The state it left. -/
  after : World

namespace Transition

variable (c : Nat) (x : Transition)

/-- An operation of client `c` that gets the reply `r`. -/
def Does (ch : Choice) (o : Op) (r : o.Reply) : Prop :=
  x.op = o ∧ ∃ f, World.exec c o ch x.before = some (r, x.after, f)

/-- A command runs, or fails without effect. -/
def Performs (o : Op) (r : o.Reply) : Prop := ∃ ch, (∀ e, ch.fault ≠ .lost e) ∧ x.Does c ch o r

/-- What the operation itself counts as. -/
def ofOp : Tally :=
  match x.op with
  | .record m => m.tally
  | .isContextDone => if (x.before.clients c).ctxDone then .stop else 0
  | _ => 0

/-- What the change of the server's state counts as. -/
def ofServer : Tally where
  acked k := if k.2.2 ∈ x.before.server.groups k.1 k.2.1 ∧ k.2.2 ∉ x.after.server.groups k.1 k.2.1
    then 1 else 0
  added s := if (x.before.server.streams s).top < (x.after.server.streams s).top then 1 else 0
  gaps := 0
  stops := 0
  scans := 0

/-- What a transition counts as. -/
def weight : Tally := x.ofServer + x.ofOp c

end Transition

/-! ### What an operation counts as -/

namespace Transition

variable {c : Nat} {x : Transition} {stream group id : String}

theorem Performs.op_eq {o : Op} {r : o.Reply} (h : x.Performs c o r) : x.op = o := by
  obtain ⟨ch, -, ho, -⟩ := h
  exact ho

/-- An operation that changes no pending list and adds to no stream. -/
theorem ofServer_eq_zero
    (hs : ∀ s, (x.after.server.streams s).top = (x.before.server.streams s).top)
    (hg : x.after.server.groups = x.before.server.groups) : x.ofServer = 0 := by
  ext k
  · simp [ofServer, hg]
  · simp [ofServer, hs]
  · rfl
  · rfl
  · rfl

/-- An operation that leaves the server alone. -/
theorem ofServer_eq_zero_of_eq (h : x.after.server = x.before.server) : x.ofServer = 0 :=
  ofServer_eq_zero (fun s ↦ by rw [h]) (by rw [h])

/-- Operations that do not write to the server count as what they record. -/
theorem Performs.weight_read {o : Op} {r : o.Reply} (h : x.Performs c o r) (ho : ¬ o.Writes) :
    x.weight c = x.ofOp c := by
  obtain ⟨ch, -, -, f, hx⟩ := h
  rw [weight, ofServer_eq_zero_of_eq ((World.exec_server hx).resolve_right ho), zero_add]

/-- An `XDEL` counts as nothing. -/
theorem Performs.weight_xdel {r : Except Err Int} (h : x.Performs c (.xdel stream id) r) :
    x.weight c = 0 := by
  obtain ⟨ch, -, ho, f, hx⟩ := h
  have hserver : x.ofServer = 0 := by
    obtain ⟨-, ⟨-, heq, -⟩ | ⟨-, heq, -⟩⟩ := World.exec_xdel hx
    · exact ofServer_eq_zero_of_eq (by rw [heq])
    rcases x.before.server.xdel_cases stream id with ⟨i, -, -, hdel⟩ | ⟨-, hdel⟩
    · refine ofServer_eq_zero (fun s ↦ ?_) (by rw [heq, World.server_setServer, hdel]; rfl)
      rw [heq, World.server_setServer, hdel]
      by_cases hs : s = stream
      · subst hs
        simp [Server.setStream]
      · simp [Server.setStream, Function.update_of_ne hs]
    · exact ofServer_eq_zero_of_eq (by rw [heq, World.server_setServer, hdel])
  simp [weight, hserver, ofOp, ho]

/-- An `XACK` that counts as something says so. -/
theorem Performs.weight_xack {r : Except Err Int} (h : x.Performs c (.xack stream group id) r) :
    (x.weight c = 0 ∧ (r = .ok 0 ∨ ∃ e, r = .error e)) ∨
      ∃ i, StreamID.ofText? id = some i ∧ r = .ok 1 ∧ x.weight c = .ack (stream, group, i) := by
  obtain ⟨ch, hlost, ho, f, hx⟩ := h
  have hop : x.ofOp c = 0 := by simp [ofOp, ho]
  rw [weight, hop, add_zero]
  obtain ⟨-, ⟨-, heq, e, he⟩ | ⟨-, heq, ⟨-, hr⟩ | ⟨e, he, -⟩⟩⟩ := World.exec_xack hx
  · exact .inl ⟨ofServer_eq_zero_of_eq (by rw [heq]), .inr ⟨e, he⟩⟩
  · rcases x.before.server.xack_cases stream group id with ⟨i, hi, hm, hack⟩ | ⟨-, hack, hrep⟩
    · refine .inr ⟨i, hi, by rw [hr, hack], ?_⟩
      have hafter : x.after.server = x.before.server.setGroup stream group
          ((x.before.server.groups stream group).erase i) := by
        rw [heq, World.server_setServer, hack]
      ext k
      · obtain ⟨s, g, j⟩ := k
        rw [Tally.ack_acked, Pi.single_apply]
        refine if_congr ?_ rfl rfl
        rw [hafter]
        simp only [Server.groups_setGroup, Prod.mk.injEq]
        grind [Log.mem_erase]
      · simp [ofServer, hafter, Server.setGroup, Tally.ack]
      · rfl
      · rfl
      · rfl
    · refine .inl ⟨ofServer_eq_zero_of_eq (by rw [heq, World.server_setServer, hack]), ?_⟩
      rw [hr]
      exact hrep.imp_right fun he ↦ ⟨_, he⟩
  · exact absurd he (hlost e)

/-- An `XADD` that counts as something says so. -/
theorem Performs.weight_xadd {maxLen : Int} {v : Values} {r : Except Err String}
    (h : x.Performs c (.xadd stream maxLen v) r) :
    (x.weight c = 0 ∧ ∃ e, r = .error e) ∨ (x.weight c = .add stream ∧ ∃ t, r = .ok t) := by
  obtain ⟨ch, hlost, ho, f, hx⟩ := h
  have hop : x.ofOp c = 0 := by simp [ofOp, ho]
  rw [weight, hop, add_zero]
  obtain ⟨-, ⟨-, heq, e, he⟩ | ⟨-, r', s, hadd, heq, ⟨-, hr⟩ | ⟨e, he, -⟩⟩⟩ := World.exec_xadd hx
  · exact .inl ⟨ofServer_eq_zero_of_eq (by rw [heq]), e, he⟩
  · refine .inr ⟨?_, ch.newID.text, by rw [hr, (Server.xadd_eq hadd).2]⟩
    obtain ⟨hgroups, hothers⟩ := Server.xadd_other hadd
    have htop := Server.xadd_top hadd
    ext k
    · simp [ofServer, heq, hgroups, Tally.add]
    · by_cases hk : k = stream
      · subst hk
        simp [ofServer, heq, htop, Tally.add]
      · simp [ofServer, heq, hothers k hk, Tally.add, hk]
    · rfl
    · rfl
    · rfl
  · exact absurd he (hlost e)

end Transition

/-! ## The operations -/

section Rules

variable {A : Type} {Q : Tally → A → Prop} {stream group id : String}

/-- Every run to its end counts as a tally related by `Q` to its result. -/
def Counts (c : Nat) (Q : Tally → A → Prop) (p : Prog sig A) : Prop :=
  p.Yields (Transition.Performs c) (Transition.weight c) Q

variable {c : Nat}

/-- An operation that counts as nothing. -/
theorem Counts.silent {o : Op} {k : o.Reply → Prog sig A}
    (ho : ∀ x r, Transition.Performs c x o r → x.weight c = 0) (h : ∀ r, Counts c Q (k r)) :
    Counts c Q (.call o k) := by
  refine Prog.Yields.call fun x r hx ↦ ?_
  simp only [ho x r hx, zero_add]
  exact h r

/-- An operation that only reads counts as nothing. -/
theorem Counts.read {o : Op} {k : o.Reply → Prog sig A} (hw : ¬ o.Writes)
    (ho : ∀ x : Transition, x.op = o → x.ofOp c = 0) (h : ∀ r, Counts c Q (k r)) :
    Counts c Q (.call o k) :=
  .silent (fun x _ hx ↦ (hx.weight_read hw).trans (ho x hx.op_eq)) h

theorem Counts.xRange {start stop : String} {f : Except Err (List XMessage) → Prog sig A}
    (h : ∀ r, Counts c Q (f r)) : Counts c Q (Op.xRange stream start stop >>= f) :=
  .read (o := .xrange stream start stop) id (fun x hx ↦ by rw [Transition.ofOp, hx]) h

theorem Counts.exists_ {key : String} {f : Except Err Int → Prog sig A}
    (h : ∀ r, Counts c Q (f r)) : Counts c Q (Op.exists_ key >>= f) :=
  .read (o := .existsKey key) id (fun x hx ↦ by rw [Transition.ofOp, hx]) h

theorem Counts.xPendingExt {idle : Nat} {start stop : String} {count : Int}
    {f : Except Err (List String) → Prog sig A} (h : ∀ r, Counts c Q (f r)) :
    Counts c Q (Op.xPendingExt stream group idle start stop count >>= f) :=
  .read (o := .xpending stream group idle start stop count) id
    (fun x hx ↦ by rw [Transition.ofOp, hx]) h

theorem Counts.xDel {f : Except Err Int → Prog sig A} (h : ∀ r, Counts c Q (f r)) :
    Counts c Q (Op.xDel stream id >>= f) :=
  .silent (o := .xdel stream id) (fun _ _ hx ↦ hx.weight_xdel) h

theorem Counts.metric {m : Metric} {f : Unit → Prog sig A}
    (h : Counts c (fun n a ↦ Q (m.tally + n) a) (f ())) : Counts c Q (Op.metric m >>= f) := by
  refine Prog.Yields.call fun x r hx ↦ ?_
  have hweight : x.weight c = m.tally := by
    rw [hx.weight_read id, Transition.ofOp, hx.op_eq]
  rw [hweight]
  exact h

/-- A test of the context counts when it finds the context done. -/
theorem Counts.contextDone {f : Bool → Prog sig A}
    (hdone : Counts c (fun n a ↦ Q (.stop + n) a) (f true)) (hnot : Counts c Q (f false)) :
    Counts c Q (Op.contextDone >>= f) := by
  refine Prog.Yields.call fun x r hx ↦ ?_
  have hweight : x.weight c = if (x.before.clients c).ctxDone then .stop else 0 := by
    rw [hx.weight_read id, Transition.ofOp, hx.op_eq]
  obtain ⟨ch, -, -, g, hexec⟩ := hx
  obtain ⟨hr, -⟩ := Prod.mk.inj (Option.some.inj hexec)
  obtain rfl : (x.before.clients c).ctxDone = r := hr
  rw [hweight]
  cases hctx : (x.before.clients c).ctxDone with
  | true => exact hdone
  | false =>
    simp only [Bool.false_eq_true, if_false, zero_add]
    exact hnot

/-- Of an `XACK`, only the one answer that is not zero counts. -/
theorem Counts.xAck {f : Except Err Int → Prog sig A}
    (hlost : ∀ r, (r = .ok 0 ∨ ∃ e, r = .error e) → Counts c Q (f r))
    (hwon : ∀ i, StreamID.ofText? id = some i →
      Counts c (fun n a ↦ Q (.ack (stream, group, i) + n) a) (f (.ok 1))) :
    Counts c Q (Op.xAck stream group id >>= f) := by
  refine Prog.Yields.call fun x r hx ↦ ?_
  rcases hx.weight_xack with ⟨hweight, hr⟩ | ⟨i, hi, rfl, hweight⟩
  · simp only [hweight, zero_add]
    exact hlost r hr
  · rw [hweight]
    exact hwon i hi

/-- Of an `XADD`, the answer without an error counts. -/
theorem Counts.xAdd {maxLen : Int} {v : Values} {f : Except Err String → Prog sig A}
    (hfail : ∀ e, Counts c Q (f (.error e)))
    (hdone : ∀ t, Counts c (fun n a ↦ Q (.add stream + n) a) (f (.ok t))) :
    Counts c Q (Op.xAdd stream maxLen v >>= f) := by
  refine Prog.Yields.call fun x r hx ↦ ?_
  rcases hx.weight_xadd with ⟨hweight, e, rfl⟩ | ⟨hweight, t, rfl⟩
  · simp only [hweight, zero_add]
    exact hfail e
  · rw [hweight]
    exact hdone t

end Rules

/-! ## The ways `reQueue` returns -/

section

variable (J : Json) (r : Client)

/-- The entry an ID names, in the pending list of the LBS. -/
def Client.pendingKey (i : StreamID) : String × String × StreamID :=
  (r.lbsName, r.lbsGroupName, i)

/-- The ways `reQueue` returns for an ID, with what it counts as. -/
inductive Exit (r : Client) (id : String) : Tally → ReQueueOutcome → Option Err → Prop
  | /-- A command failed before the entry was acknowledged. -/
    failed (out : ReQueueOutcome) (e : Err) : Exit r id 0 out (some e)
  | /-- The entry is acknowledged by another, or held by a live owner. -/
    left {out : ReQueueOutcome} (h : out = .lostRace ∨ out = .skippedAlive) : Exit r id 0 out none
  | /-- An entry that is gone from the stream was acknowledged. -/
    cleared {i : StreamID} (h : StreamID.ofText? id = some i) :
      Exit r id (.ack (r.pendingKey i)) .lostRace none
  | /-- The entry was acknowledged and could not be added again. -/
    gap {i : StreamID} (h : StreamID.ofText? id = some i) (out : ReQueueOutcome) (e : Err) :
      Exit r id (.ack (r.pendingKey i) + .gap) out (some e)
  | /-- The entry was acknowledged and added to the LBS again. -/
    requeued {i : StreamID} (h : StreamID.ofText? id = some i) :
      Exit r id (.ack (r.pendingKey i) + .add r.lbsName) .requeued none
  | /-- The entry was acknowledged and added to the DLQ. -/
    dlq {i : StreamID} (h : StreamID.ofText? id = some i) :
      Exit r id (.ack (r.pendingKey i) + .add r.recoveryConfig.dlqStream) .dlq none

variable {J r} {c : Nat} {id name : String}

/-- Reading an entry counts as nothing. -/
theorem Counts.readLBSEntry {A : Type} {Q : Tally → A → Prop}
    {f : Except Err (Option LBSEntry) → Prog sig A} (herr : ∀ e, Counts c Q (f (.error e)))
    (hnone : Counts c Q (f (.ok none))) (hsome : ∀ v, Counts c Q (f (.ok (some ⟨id, v⟩)))) :
    Counts c Q (readLBSEntry r id >>= f) := by
  apply Counts.xRange
  rintro (e | _ | ⟨m, ms⟩)
  · exact herr _
  · exact hnone
  · exact hsome m.values

/-- The liveness check counts as nothing. -/
theorem Counts.ownerAlive {A : Type} {Q : Tally → A → Prop} {lbsInfo : LBSInfo}
    {f : Except Err Bool → Prog sig A} (h : ∀ r, Counts c Q (f r)) :
    Counts c Q (ownerAlive lbsInfo >>= f) := by
  apply Counts.exists_
  rintro (e | n)
  · exact h _
  · exact h _

section

variable (hdlq : r.recoveryConfig.dlqStream ≠ "")

include hdlq

end

/-! ## Outcomes, claims and figures -/

/-- How often the entry an ID names left the pending list. -/
def Client.removals (r : Client) (id : String) (t : Tally) : ℕ :=
  (StreamID.ofText? id).elim 0 fun i ↦ t.acked (r.pendingKey i)

/-- What an outcome and an error of `reQueue` say about its effects. -/
structure Accounts (r : Client) (id : String) (t : Tally) (out : ReQueueOutcome)
    (err : Option Err) : Prop where
  /-- A re-queued entry was removed, and the LBS was given one. -/
  requeued : out = .requeued → err = none → r.removals id t = 1 ∧ t.added = Pi.single r.lbsName 1
  /-- A dead entry was removed, and the DLQ was given one. -/
  dlq : out = .dlq → err = none →
    r.removals id t = 1 ∧ t.added = Pi.single r.recoveryConfig.dlqStream 1
  /-- The other outcomes add nothing. -/
  other : err = none → out ≠ .requeued → out ≠ .dlq → t.added = 0
  /-- An error adds nothing, and the gap is recorded once if the entry was removed. -/
  error : err ≠ none → t.added = 0 ∧ t.gaps = r.removals id t ∧ t.gaps ≤ 1

theorem Exit.accounts {t : Tally} {out : ReQueueOutcome} {err : Option Err}
    (h : Exit r id t out err) : Accounts r id t out err := by
  cases h with
  | failed out e =>
    have hzero : r.removals id 0 = 0 := by cases h : StreamID.ofText? id <;> simp [Client.removals, h]
    exact ⟨by simp, by simp, by simp, by simp [hzero]⟩
  | left h => exact ⟨by rintro rfl; simp at h, by rintro rfl; simp at h, by simp, by simp⟩
  | cleared h => exact ⟨by simp, by simp, by simp, by simp⟩
  | gap h out e => exact ⟨by simp, by simp, by simp, by simp [Client.removals, h]⟩
  | requeued h => exact ⟨by simp [Client.removals, h], by simp, by simp, by simp⟩
  | dlq h => exact ⟨by simp, by simp [Client.removals, h], by simp, by simp⟩

/-- The entries of a stream that the figures of a scan account for. -/
def Client.figure (r : Client) (m : ScanCounts) (stream : String) : Int :=
  (if stream = r.lbsName then m.requeued else 0) +
    if stream = r.recoveryConfig.dlqStream then m.dlqRouted else 0

/-- No exit records a scan. -/
theorem Exit.scans {t : Tally} {out : ReQueueOutcome} {err : Option Err} (h : Exit r id t out err) :
    t.scans = 0 := by
  cases h <;> rfl

/-- What the loop over the pending entries makes of the figures `m` it starts with. -/
structure Scanned (r : Client) (m : ScanCounts) (t : Tally) (res : Option ScanCounts) : Prop where
  /-- It records no scan. -/
  scans : t.scans = 0
  /-- It stops early only for a context that is done. -/
  stops : res = none → t.stops ≠ 0
  /-- It counts what it adds. -/
  figure : ∀ m', res = some m' → ∀ s, r.figure m' s = r.figure m s + t.added s

/-- One entry, then the rest of the loop. -/
theorem Scanned.after {m m' : ScanCounts} {t t' : Tally} {res : Option ScanCounts}
    (hscans : t.scans = 0) (hfigure : ∀ s, r.figure m' s = r.figure m s + t.added s)
    (h : Scanned r m' t' res) : Scanned r m (t + t') res where
  scans := by rw [Tally.scans_add, hscans, h.scans, add_zero]
  stops hres := by
    have := h.stops hres
    rw [Tally.stops_add]
    omega
  figure n hn s := by
    rw [h.figure n hn s, hfigure s, Tally.added_add, Pi.add_apply, Nat.cast_add, add_assoc]

variable (hdlq : r.recoveryConfig.dlqStream ≠ "")

include hdlq

omit hdlq in
/-- The metric of a startup pass counts as nothing. -/
theorem Counts.startup {Q : Tally → Unit → Prop} {startup success : Bool} {n : Int} (h : Q 0 ()) :
    Counts c Q (if startup then Op.metric (.startupRecovery success n) else return ()) := by
  cases startup with
  | true => exact Counts.metric (f := .ret) (Prog.Yields.ret h)
  | false => exact Prog.Yields.ret h

end

/-- What the transitions of a run of client `c` count as. -/
def tally (c : Nat) (tr : List Transition) : Tally := (tr.map (Transition.weight c)).sum

namespace Demo

/-- Client 1 on its own; nothing goes wrong, and an added entry gets the ID `9-0`. -/
def alone (o : Op) (w : World) : Option (o.Reply × Transition × World) :=
  (w.exec 1 o (.plain ⟨9, 0⟩)).map fun p ↦ (p.1, ⟨w, o, p.2.1⟩, p.2.1)

theorem performs_of_alone (o : Op) (w : World) (r : o.Reply) (x : Transition) (w' : World)
    (h : alone o w = some (r, x, w')) : x.Performs 1 o r := by
  obtain ⟨⟨r', w₁, f⟩, hx, heq⟩ := Option.map_eq_some_iff.1 h
  simp only [Prod.mk.injEq] at heq
  obtain ⟨rfl, rfl, -⟩ := heq
  exact ⟨.plain ⟨9, 0⟩, fun e he ↦ by simp [Choice.plain] at he, rfl, f, hx⟩

/-- Client 0 was handed the entry `1-0` and crashed. -/
def abandoned : Pool service.machine × History :=
  service.reached (fun _ _ _ ↦ True) idle
    ([produce 1 "orders", .start 0 (.readLBSStream 0 0)] ++ ops 0 2 ++ [.crash 0])
    (by decide +kernel)

end Demo

end RedisStreamClient.Impl
