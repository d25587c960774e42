import RedisStreamClient.Impl.Session

/-!
# The client's code keeps its contract

One spec for each function of the client: from which sessions it obeys, and in which
session it ends for which result.  `contract` puts them together for every call.
-/

namespace RedisStreamClient.Impl

open RedisStreamClient.Lib RedisStreamClient.Errs RedisStreamClient.Notifs
open RedisStreamClient.Redis

/-- Sessions as a monitor. -/
def monitor (J : Json) (cfg : Nat → Client) : Monitor sig Nat where
  State := Session
  Ok c q o := q.Ok J (cfg c) o
  next c q o reply := q.next J (cfg c) o reply

/-- A program of client `c` obeys from a session, and ends in one related to its
result. -/
def Keeps (J : Json) (cfg : Nat → Client) (c : Nat) {A : Type} (Q : Session → A → Prop)
    (p : Prog sig A) (q : Session) : Prop :=
  p.Obeys (monitor J cfg) c Q q

section Rules

variable {J : Json} {cfg : Nat → Client} {c : Nat} {A B : Type} {Q : Session → A → Prop}
  {q : Session}

/-! ## Rules for the operations -/

theorem Keeps.bind {Q' : Session → B → Prop} {p : Prog sig B} {f : B → Prog sig A}
    (hp : Keeps J cfg c Q' p q) (hf : ∀ q' b, Q' q' b → Keeps J cfg c Q (f b) q') :
    Keeps J cfg c Q (p >>= f) q :=
  Prog.Obeys.bind hp hf

theorem Keeps.mono {Q' : Session → A → Prop} {p : Prog sig A} (hp : Keeps J cfg c Q' p q)
    (h : ∀ q' a, Q' q' a → Q q' a) : Keeps J cfg c Q p q :=
  Prog.Obeys.mono h hp

@[simp] theorem keeps_ret {a : A} : Keeps J cfg c Q (.ret a) q ↔ Q q a := Iff.rfl

theorem keeps_xAck {s g i : String} {f : _ → Prog sig A} :
    Keeps J cfg c Q (Op.xAck s g i >>= f) q ↔ q.Ok J (cfg c) (.xack s g i) ∧
      ∀ reply, Keeps J cfg c Q (f reply) (q.onAck reply) := Iff.rfl

theorem keeps_xDel {s i : String} {f : _ → Prog sig A} :
    Keeps J cfg c Q (Op.xDel s i >>= f) q ↔ q.Ok J (cfg c) (.xdel s i) ∧
      ∀ reply, Keeps J cfg c Q (f reply) (q.onDel reply) := Iff.rfl

theorem keeps_metric {m : Metric} {f : _ → Prog sig A} :
    Keeps J cfg c Q (Op.metric m >>= f) q ↔ q.Ok J (cfg c) (.record m) ∧
      Keeps J cfg c Q (f ()) (q.next J (cfg c) (.record m) ()) :=
  and_congr Iff.rfl ⟨fun h ↦ h (), fun h _ ↦ h⟩

theorem keeps_xPendingExt {s g a b : String} {i : Nat} {n : Int} {f : _ → Prog sig A} :
    Keeps J cfg c Q (Op.xPendingExt s g i a b n >>= f) q ↔
      q.Ok J (cfg c) (.xpending s g i a b n) ∧
        ∀ reply, Keeps J cfg c Q (f reply) (q.onPending reply) := Iff.rfl

theorem keeps_xReadGroup {g n s : String} {f : _ → Prog sig A} :
    Keeps J cfg c Q (Op.xReadGroup g n s >>= f) q ↔ q.Ok J (cfg c) (.xreadGroup g n s) ∧
      ∀ reply, Keeps J cfg c Q (f reply) (Session.onReadGroup reply) := Iff.rfl

theorem keeps_lockMutex {m : RedsyncMutex} {f : _ → Prog sig A} :
    Keeps J cfg c Q (Op.lockMutex m >>= f) q ↔ q.Ok J (cfg c) (.lock m) ∧
      ∀ reply, Keeps J cfg c Q (f reply) (q.onLock J reply) := Iff.rfl

theorem keeps_extendMutex {m : RedsyncMutex} {f : _ → Prog sig A} :
    Keeps J cfg c Q (Op.extendMutex m >>= f) q ↔ q.Ok J (cfg c) (.extend m) ∧
      ∀ reply, Keeps J cfg c Q (f reply) (q.onExtend reply) := Iff.rfl

theorem keeps_unlockMutex {m : RedsyncMutex} {f : _ → Prog sig A} :
    Keeps J cfg c Q (Op.unlockMutex m >>= f) q ↔ q.Ok J (cfg c) (.unlock m) ∧
      ∀ reply, Keeps J cfg c Q (f reply) .over := Iff.rfl

theorem keeps_contextDone {f : _ → Prog sig A} :
    Keeps J cfg c Q (Op.contextDone >>= f) q ↔ q.Ok J (cfg c) .isContextDone ∧
      ∀ reply, Keeps J cfg c Q (f reply) (q.onContextDone reply) := Iff.rfl

theorem keeps_setStreamLocks {n : String} {i : StreamLocksInfo} {f : _ → Prog sig A} :
    Keeps J cfg c Q (Op.setStreamLocks n i >>= f) q ↔ q.Ok J (cfg c) (.putStreamLocks n i) ∧
      Keeps J cfg c Q (f ()) (q.onPut i) :=
  and_congr Iff.rfl ⟨fun h ↦ h (), fun h _ ↦ h⟩

theorem keeps_popStreamLocks {n : String} {f : _ → Prog sig A} :
    Keeps J cfg c Q (Op.popStreamLocks n >>= f) q ↔ q.Ok J (cfg c) (.popStreamLocksInfo n) ∧
      ∀ reply, Keeps J cfg c Q (f reply) (q.onPop reply) := Iff.rfl

theorem keeps_streamProcessingDone {n : String} {f : _ → Prog sig A} :
    Keeps J cfg c Q (Op.streamProcessingDone n >>= f) q ↔
      q.Ok J (cfg c) (.isStreamProcessingDone n) ∧
        ∀ reply, Keeps J cfg c Q (f reply) (q.onProcessingDone reply) := Iff.rfl

theorem keeps_sleepFor {d : Int} {f : _ → Prog sig A} :
    Keeps J cfg c Q (Op.sleepFor d >>= f) q ↔ q.Ok J (cfg c) (.sleep d) ∧
      Keeps J cfg c Q (f ()) q :=
  and_congr Iff.rfl ⟨fun h ↦ h (), fun h _ ↦ h⟩

theorem keeps_afterOrDone {d : Int} {f : _ → Prog sig A} :
    Keeps J cfg c Q (Op.afterOrDone d >>= f) q ↔ q.Ok J (cfg c) (.waitOrDone d) ∧
      ∀ reply, Keeps J cfg c Q (f reply) q := Iff.rfl

theorem keeps_goExtend {m : RedsyncMutex} {l : LBSInfo} {i : GoMap Value} {f : _ → Prog sig A} :
    Keeps J cfg c Q (Op.goExtend m l i >>= f) q ↔ q.Ok J (cfg c) (.goStartExtendingKey m l i) ∧
      Keeps J cfg c Q (f ()) q.onGo :=
  and_congr Iff.rfl ⟨fun h ↦ h (), fun h _ ↦ h⟩

/-- A metric other than that of a gap changes nothing. -/
theorem Keeps.metric {m : Metric} {f : Unit → Prog sig A} (hm : ∀ name, m ≠ .ackAddGap name)
    (hq : q.NoGap) (hf : Keeps J cfg c Q (f ()) q) : Keeps J cfg c Q (Op.metric m >>= f) q := by
  rw [keeps_metric]
  cases m with
  | ackAddGap name => exact absurd rfl (hm name)
  | _ => exact ⟨hq, hf⟩

/-- Sending a notification: the broker is closed, or its select takes a case. -/
theorem Keeps.sendNotif {m : RecoverableRedisNotification} {f : Bool → Prog sig A}
    (hm : q.OkSend m) (hclosed : Keeps J cfg c Q (f false) q)
    (hsel : ∀ ok, Keeps J cfg c Q (f ok) q.onSelect) :
    Keeps J cfg c Q (Op.sendNotif m >>= f) q := by
  have hload : q.OkBroker .load := by
    rintro scope stage rfl
    exact hm
  refine ⟨hload, ?_⟩
  rintro (_ | _)
  · refine ⟨hm, ?_⟩
    rintro (_ | _ | _)
    · exact hsel false
    · exact hsel false
    · exact hsel true
  · exact hclosed

end Rules

variable {J : Json} {cfg : Nat → Client} {c : Nat} {scope : Scope}

theorem Session.noGap_of_ne {stage : Stage} (h : ∀ e, stage ≠ .gap e) :
    (Session.recover scope stage).NoGap := by
  intro scope' e heq
  exact h e (Session.recover.inj heq).2

theorem Session.noGap_of_role {q : Session} (h : q.role ≠ .recoverer) : q.NoGap := by
  rintro scope e rfl
  exact h rfl

/-! ## The recovery primitive -/

/-- The stage in which `reQueue` returns an outcome and an error. -/
def Stage.Returns (out : ReQueueOutcome) (err : Option Err) : Stage → Prop
  | .cleared _ toDLQ => out = (if toDLQ then .dlq else .requeued) ∧ err = none
  | .dropped _ => out = .dlq ∧ err = none
  | .lost => out = .lostRace ∧ err = none
  | .skipped => out = .skippedAlive ∧ err = none
  | .failed => err ≠ none
  | .found e => e.id = "" ∧ err ≠ none
  | _ => False

theorem Stage.Returns.resting {stage : Stage} {out : ReQueueOutcome} {err : Option Err}
    (h : stage.Returns out err) : stage.Resting := by
  cases stage <;> simp_all [Returns, Resting]

/-- The recoverer is through with an entry, as its result says. -/
def Session.Returns (scope : Scope) (out : ReQueueOutcome) (err : Option Err)
    (q : Session) : Prop :=
  ∃ stage, q = .recover scope stage ∧ stage.Returns out err

section Stages

variable {A : Type} {Q : Session → A → Prop} {stage : Stage}

/-- An acknowledgement by a recoverer. -/
theorem Keeps.xAck {id : String} {f : _ → Prog sig A} (h : stage.OkAck J id)
    (hf : ∀ reply, Keeps J cfg c Q (f reply) (.recover scope (stage.onAck reply))) :
    Keeps J cfg c Q (Op.xAck (cfg c).lbsName (cfg c).lbsGroupName id >>= f)
      (.recover scope stage) := by
  refine ⟨⟨rfl, rfl, .inl ⟨_, _, rfl, h⟩⟩, ?_⟩
  intro reply
  exact hf reply

/-- An addition by a recoverer. -/
theorem Keeps.xAdd {stream : String} {n : Int} {v : Values} {f : _ → Prog sig A}
    (h : stage.OkAdd (cfg c) stream n v)
    (hf : ∀ reply, Keeps J cfg c Q (f reply) (.recover scope (stage.onAdd (cfg c) reply))) :
    Keeps J cfg c Q (Op.xAdd stream n v >>= f) (.recover scope stage) :=
  ⟨⟨_, _, rfl, h⟩, hf⟩

/-- A deletion by a recoverer. -/
theorem Keeps.xDel {id : String} {f : _ → Prog sig A} (h : stage.OkDel (cfg c) id)
    (hf : ∀ reply, Keeps J cfg c Q (f reply) (.recover scope stage.onDel)) :
    Keeps J cfg c Q (Op.xDel (cfg c).lbsName id >>= f) (.recover scope stage) :=
  ⟨⟨rfl, .inl ⟨_, _, rfl, h⟩⟩, hf⟩

/-- The report of a failed addition. -/
theorem Keeps.ackAddGap {e : LBSEntry} {name : String} {f : Unit → Prog sig A}
    (hf : Keeps J cfg c Q (f ()) (.recover scope .failed)) :
    Keeps J cfg c Q (Op.metric (.ackAddGap name) >>= f) (.recover scope (.gap e)) :=
  ⟨⟨_, _, rfl⟩, fun _ ↦ hf⟩

/-- Reading an entry: the three ways it can go. -/
theorem Keeps.readLBSEntry {id : String} {f : Except Err (Option LBSEntry) → Prog sig A}
    (h : stage.Resting) (hid : id ∈ scope.todo)
    (he : ∀ err, Keeps J cfg c Q (f (.error err)) (.recover (scope.erase id) .failed))
    (hn : Keeps J cfg c Q (f (.ok none)) (.recover (scope.erase id) (.missing id)))
    (hs : ∀ v, Keeps J cfg c Q (f (.ok (some ⟨id, v⟩)))
      (.recover (scope.erase id) (.found ⟨id, v⟩))) :
    Keeps J cfg c Q (readLBSEntry (cfg c) id >>= f) (.recover scope stage) := by
  refine ⟨⟨rfl, rfl, _, _, rfl, h, hid⟩, ?_⟩
  rintro (err | _ | ⟨m, ms⟩)
  · exact he _
  · exact hn
  · exact hs m.values

/-- Checking the lock of an entry: the three ways it can go. -/
theorem Keeps.ownerAlive {e : LBSEntry} {name : String} {f : Except Err Bool → Prog sig A}
    (hn : e.dataStreamName J = .ok name)
    (he : ∀ err, Keeps J cfg c Q (f (.error err)) (.recover scope .failed))
    (ht : Keeps J cfg c Q (f (.ok true)) (.recover scope .skipped))
    (hf : Keeps J cfg c Q (f (.ok false)) (.recover scope (.dead e name))) :
    Keeps J cfg c Q (ownerAlive ⟨name, e.id⟩ >>= f) (.recover scope (.found e)) := by
  refine ⟨⟨_, _, _, rfl, hn, rfl⟩, ?_⟩
  rintro (err | k)
  · exact he _
  show Keeps J cfg c Q (f (.ok (decide (0 < k))))
    (.recover scope (Stage.onExists J (.found e) (.ok k)))
  by_cases hk : 0 < k
  · simpa [Stage.onExists, hn, hk] using ht
  · simpa [Stage.onExists, hn, hk] using hf

end Stages

theorem routeToDLQ_obeys {name : String} {e : LBSEntry} {n : Int} {reason : String}
    (stage : Stage) (nm : Option String) (h : stage.OkAck J e.id)
    (hw : ∀ k, k ≠ 0 → stage.onAck (.ok k) = .won e nm) (hl : stage.onAck (.ok 0) = .lost)
    (hf : ∀ err, stage.onAck (.error err) = .failed) (ht : Stage.goesToDLQ (cfg c) e nm = true)
    (ha : (cfg c).recoveryConfig.dlqStream ≠ "" →
      (Stage.won e nm).OkAdd (cfg c) (cfg c).recoveryConfig.dlqStream
        (cfg c).recoveryConfig.dlqMaxLen (e.deadLettered n reason)) :
    Keeps J cfg c (fun q x ↦ q.Returns scope x.1 x.2) (routeToDLQ (cfg c) name e n reason)
      (.recover scope stage) := by
  refine Keeps.xAck h ?_
  rintro (err | k)
  · rw [hf]
    exact ⟨_, rfl, by simp [Stage.Returns]⟩
  by_cases hk : k = 0
  · subst hk
    rw [hl]
    exact ⟨_, rfl, rfl, rfl⟩
  rw [hw k hk]
  by_cases hd : (cfg c).recoveryConfig.dlqStream = ""
  · simp only [hk, hd, if_false, ne_eq, not_true]
    exact Keeps.xDel ⟨hd, rfl⟩ fun _ ↦ ⟨_, rfl, rfl, rfl⟩
  · simp only [hk, hd, if_false, ne_eq, not_false_eq_true, if_true]
    refine Keeps.xAdd (ha hd) ?_
    rintro (err | i)
    · exact Keeps.ackAddGap ⟨_, rfl, by simp [Stage.Returns]⟩
    · simp only [Stage.onAdd, ht]
      refine Keeps.metric (by simp) (Session.noGap_of_ne (by simp)) ?_
      exact Keeps.xDel rfl fun _ ↦ ⟨_, rfl, rfl, rfl⟩

theorem reAdd_obeys {name : String} {e : LBSEntry} :
    Keeps J cfg c (fun q x ↦ q.Returns scope x.1 x.2.2) (reAdd (cfg c) e.id name e)
      (.recover scope (.dead e name)) := by
  rw [reAdd]
  split
  · next hn =>
    -- retries exhausted
    refine (routeToDLQ_obeys (.dead e name) (some name) rfl ?_ ?_ ?_ ?_ ?_).bind ?_
    · intro k hk; simp [Stage.onAck, hk]
    · simp [Stage.onAck]
    · intro err; rfl
    · simpa [Stage.goesToDLQ] using hn
    · intro hd; exact .inr ⟨hn, hd, rfl, rfl, rfl⟩
    · intro q x hx; exact hx
  · next hn =>
    refine Keeps.xAck rfl ?_
    rintro (err | k)
    · refine Keeps.metric (by simp) (Session.noGap_of_ne (by simp [Stage.onAck])) ?_
      exact ⟨_, rfl, by simp [Stage.onAck, Stage.Returns]⟩
    by_cases hk : k = 0
    · subst hk
      exact ⟨_, rfl, by simp [Stage.onAck, Stage.Returns]⟩
    simp only [hk, if_false, Stage.onAck]
    refine Keeps.xAdd (.inl ⟨not_lt.1 hn, rfl, rfl, rfl⟩) ?_
    rintro (err | i)
    · refine Keeps.ackAddGap ?_
      refine Keeps.metric (by simp) (Session.noGap_of_ne (by simp)) ?_
      exact ⟨_, rfl, by simp [Stage.Returns]⟩
    · simp only [Stage.onAdd]
      refine Keeps.xDel rfl fun _ ↦ ?_
      refine Keeps.metric (by simp) (Session.noGap_of_ne (by simp [Stage.onDel])) ?_
      exact ⟨_, rfl, by simp [Stage.goesToDLQ, hn], rfl⟩

/-- **The spec of `reQueue`**: between two entries it recovers one, and its result says
how that went. -/
theorem reQueue_obeys {id : String} {stage : Stage} (h : stage.Resting) (hid : id ∈ scope.todo) :
    Keeps J cfg c (fun q x ↦ q.Returns (scope.erase id) x.1 x.2.2) (reQueue J (cfg c) id)
      (.recover scope stage) := by
  refine Keeps.readLBSEntry h hid ?_ ?_ ?_
  · intro err
    exact ⟨_, rfl, by simp [Stage.Returns]⟩
  · -- nothing there: a blind acknowledgement
    exact Keeps.xAck rfl fun _ ↦ ⟨_, rfl, rfl, rfl⟩
  intro v
  dsimp only
  cases hn : LBSEntry.dataStreamName J ⟨id, v⟩ with
  | error err =>
    refine (routeToDLQ_obeys (.found ⟨id, v⟩) none ⟨rfl, err, hn⟩ ?_ ?_ ?_ rfl ?_).bind ?_
    · intro k hk; simp [Stage.onAck, hk]
    · simp [Stage.onAck]
    · intro err; rfl
    · intro hd; exact ⟨hd, rfl, rfl, rfl⟩
    · intro q x hx; exact hx
  | ok name =>
    have hname := LBSEntry.dataStreamName_ne_empty hn
    by_cases hid : id = ""
    · subst hid
      simp only [createByParts, or_true, if_true]
      exact ⟨_, rfl, by simp [Stage.Returns]⟩
    simp only [createByParts, hname, hid, or_self, if_false]
    refine Keeps.ownerAlive hn ?_ ?_ reAdd_obeys
    · intro err
      exact ⟨_, rfl, by simp [Stage.Returns]⟩
    · refine Keeps.metric (by simp) (Session.noGap_of_ne (by simp)) ?_
      exact ⟨_, rfl, rfl, rfl⟩

/-! ## `Claim` and `DoneStream` -/

/-- The stage in which `Claim` returns an error or none. -/
def Stage.Claimed (e : Option Err) : Stage → Prop
  | .cleared _ _ | .dropped _ => e = none
  | .lost | .skipped => e = some .alreadyClaimed
  | .failed => e ≠ none
  | .found entry => entry.id = "" ∧ e ≠ none
  | _ => False

theorem Stage.Returns.claimed_some {stage : Stage} {out : ReQueueOutcome} {err : Err}
    (h : stage.Returns out (some err)) : stage.Claimed (some err) := by
  cases stage <;> simp_all [Returns, Claimed]

theorem Stage.Returns.claimed_none {stage : Stage} {out : ReQueueOutcome}
    (h : stage.Returns out none) : stage.Claimed
      (if out ≠ .requeued ∧ out ≠ .dlq then some .alreadyClaimed else none) := by
  cases stage with
  | cleared e toDLQ => cases toDLQ <;> simp_all [Returns, Claimed]
  | _ => simp_all [Returns, Claimed]

theorem claim_obeys {lbsInfo : LBSInfo} :
    Keeps J cfg c (fun q e ↦ ∃ scope stage, q = .recover scope stage ∧ stage.Claimed e)
      (claim J (cfg c) lbsInfo) (.recover ⟨false, [lbsInfo.idInLBS]⟩ .idle) := by
  have hidle : Stage.idle.Resting := trivial
  refine (reQueue_obeys hidle (List.mem_singleton.2 rfl)).bind ?_
  rintro q ⟨out, name, err⟩ ⟨stage, rfl, h⟩
  cases err with
  | some err => exact ⟨_, _, rfl, h.claimed_some⟩
  | none =>
    have hc := h.claimed_none
    dsimp only at hc ⊢
    split
    · next h => exact ⟨_, _, rfl, by simpa [h] using hc⟩
    · next h => exact ⟨_, _, rfl, by simpa [h] using hc⟩

theorem doneStream_obeys {name : String} :
    Keeps J cfg c (fun q _ ↦ q = .over) (doneStream (cfg c) name) .finishing := by
  rw [doneStream, keeps_popStreamLocks]
  refine ⟨.inl rfl, ?_⟩
  rintro (_ | info)
  · rfl
  simp only [Session.onPop, keeps_xAck]
  refine ⟨⟨rfl, rfl, .inr ⟨_, rfl, rfl⟩⟩, ?_⟩
  rintro (err | n)
  · rfl
  simp only [Session.onAck, keeps_xDel]
  refine ⟨⟨rfl, .inr ⟨_, rfl, rfl⟩⟩, ?_⟩
  rintro (err | n)
  · rfl
  simp only [Session.onDel, keeps_unlockMutex]
  refine ⟨⟨info, rfl, rfl⟩, ?_⟩
  have hover : Session.over.NoGap := Session.noGap_of_role (by decide)
  have hreleased : Keeps J cfg c (fun q _ ↦ q = .over) (doneStream.released name) .over :=
    Keeps.metric (by simp) hover (Keeps.metric (by simp) hover rfl)
  rintro ⟨b, err⟩
  split
  · exact hreleased
  · exact hreleased
  · exact Keeps.metric (by simp) hover rfl

/-! ## The reconciliation scan -/

theorem Stage.Resting.noGap {stage : Stage} (h : stage.Resting) :
    (Session.recover scope stage).NoGap := by
  refine Session.noGap_of_ne ?_
  rintro e rfl
  exact h

theorem scanPending_obeys {ids : List String} {n : ScanCounts} {stage : Stage}
    (h : stage.Resting) :
    Keeps J cfg c (fun q _ ↦ q.Scanning) (scanPending J (cfg c) ids n)
      (.recover ⟨true, ids⟩ stage) := by
  induction ids generalizing n stage with
  | nil => exact ⟨rfl, h⟩
  | cons id ids ih =>
    rw [scanPending, keeps_contextDone]
    refine ⟨h.noGap, ?_⟩
    rintro (_ | _)
    · refine (reQueue_obeys h List.mem_cons_self).bind ?_
      rintro q ⟨out, name, err⟩ ⟨stage', rfl, h'⟩
      have htail : Scope.erase ⟨true, id :: ids⟩ id = ⟨true, ids⟩ := by simp [Scope.erase]
      rw [htail]
      cases err <;> exact ih h'.resting
    · exact ⟨rfl, h⟩

theorem reconcileLBS_obeys {startup : Bool} {ids : List String} {stage : Stage}
    (h : stage.Resting) :
    Keeps J cfg c (fun q _ ↦ q.Scanning) (reconcileLBS J (cfg c) startup)
      (.recover ⟨true, ids⟩ stage) := by
  rw [reconcileLBS, keeps_xPendingExt]
  refine ⟨⟨rfl, rfl, rfl, h⟩, ?_⟩
  rintro (err | pending)
  · refine Keeps.metric (by simp) h.noGap ?_
    cases startup
    · exact ⟨rfl, h⟩
    · exact Keeps.metric (by simp) h.noGap ⟨rfl, h⟩
  · refine (scanPending_obeys h).bind ?_
    rintro (⟨scope', stage'⟩ | _) n hq
    · cases n with
      | none => exact hq
      | some n =>
        refine Keeps.metric (by simp) (Stage.Resting.noGap hq.2) ?_
        cases startup
        · exact hq
        · exact Keeps.metric (by simp) (Stage.Resting.noGap hq.2) hq
    all_goals exact hq.elim

/-! ## Calls as a whole -/

/-- The sessions in which a goroutine may return, or go round its loop. -/
def Session.Exit (q : Session) : Res ⊕ Call → Prop
  | .inl (.claimed e) => ∃ scope stage, q = .recover scope stage ∧ stage.Claimed e
  | .inl (.doneStream _) => q = .over
  | .inl (.extended _) => q.role = .extender
  | .inl .ended => q.Scanning ∨ q.role = .reader
  | .inl (.broker _) => q = .broker
  | .inr (.reconcile _) => q.Scanning
  | .inr (.readLBSStream _ _) => q = .batch []
  | .inr (.startExtendingKey m lbsInfo info) => q = .extender ⟨lbsInfo, m, info⟩
  | .inr (.broker _) => q = .broker
  | .inr (.claim _) | .inr (.doneStream _) => False

/-- A `DoneStream` returns with no record in hand. -/
theorem Session.over_of_exit {q : Session} {x : Res} (hrole : q.role = .finisher)
    (h : q.Exit (.inl x)) : q = .over := by
  cases x with
  | claimed e =>
    obtain ⟨scope, stage, rfl, -⟩ := h
    cases hrole
  | doneStream e => exact h
  | extended e => cases hrole.symm.trans h
  | ended =>
    rcases h with hscan | hreader
    · cases q with
      | recover scope stage => cases hrole
      | _ => exact hscan.elim
    · cases hrole.symm.trans hreader
  | broker b =>
    obtain rfl : q = .broker := h
    cases hrole

theorem runReconciliationLoop_obeys {startup : Bool} {q : Session} (h : q.Scanning) :
    Keeps J cfg c Session.Exit (runReconciliationLoop J (cfg c) startup) q := by
  have hpass : Keeps J cfg c (fun q _ ↦ q.Scanning) (reconcileLBS J (cfg c) startup) q := by
    cases q with
    | recover scope stage =>
      obtain ⟨scan, ids⟩ := scope
      obtain ⟨rfl, hrest⟩ := h
      exact reconcileLBS_obeys hrest
    | _ => exact h.elim
  refine hpass.bind ?_
  rintro (⟨scope', stage'⟩ | _) ⟨⟩ hq
  · rw [keeps_afterOrDone]
    refine ⟨Stage.Resting.noGap hq.2, ?_⟩
    rintro (_ | _)
    · exact hq
    · exact .inl hq
  all_goals exact hq.elim

section Extender

variable {m : RedsyncMutex} {lbsInfo : LBSInfo} {info : GoMap Value}

theorem popIfRecorded_obeys {q : Session}
    (hq : q = .disowned ⟨lbsInfo, m, info⟩ ∨ q = .leaving ⟨lbsInfo, m, info⟩) :
    Keeps J cfg c (fun q _ ↦ q.role = .extender) (extenderExit.popIfRecorded lbsInfo) q := by
  rw [extenderExit.popIfRecorded, keeps_streamProcessingDone]
  refine ⟨⟨⟨lbsInfo, m, info⟩, .inr hq, rfl⟩, ?_⟩
  rintro (_ | _)
  · have hc : q.onProcessingDone false = .clearing ⟨lbsInfo, m, info⟩ := by
      rcases hq with rfl | rfl <;> rfl
    rw [hc]
    simp only [Bool.false_eq_true, if_false, keeps_popStreamLocks]
    exact ⟨.inr ⟨_, rfl, rfl⟩, fun _ ↦ rfl⟩
  · rcases hq with rfl | rfl <;> rfl

/-- One turn of the extender: it goes round only after an extension that succeeded. -/
theorem startExtendingKey_obeys :
    Keeps J cfg c Session.Exit (startExtendingKey (cfg c) m lbsInfo info)
      (.extender ⟨lbsInfo, m, info⟩) := by
  have hleave : Keeps J cfg c Session.Exit
      (extenderExit false lbsInfo info >>= fun _ ↦ .ret (.inl (.extended none)))
      (.leaving ⟨lbsInfo, m, info⟩) :=
    (popIfRecorded_obeys (.inr rfl)).bind fun _ _ h ↦ h
  rw [startExtendingKey, keeps_contextDone]
  refine ⟨Session.noGap_of_role (by simp [Session.role]), ?_⟩
  rintro (_ | _)
  swap
  · exact hleave
  simp only [Session.onContextDone, Bool.false_eq_true, if_false, keeps_streamProcessingDone]
  refine ⟨⟨_, .inl rfl, rfl⟩, ?_⟩
  rintro (_ | _)
  swap
  · exact hleave
  simp only [Session.onProcessingDone, Bool.false_eq_true, if_false, keeps_extendMutex]
  refine ⟨⟨_, rfl, rfl⟩, ?_⟩
  -- a failed extension is announced before the record goes
  have hpop : Keeps J cfg c (fun q _ ↦ q.role = .extender) (extenderExit.popIfRecorded lbsInfo)
      (.disowned ⟨lbsInfo, m, info⟩) := popIfRecorded_obeys (.inl rfl)
  have hsend : (Session.disowned ⟨lbsInfo, m, info⟩).OkSend (make .streamDisowned lbsInfo info) :=
    rfl
  have hexit : Keeps J cfg c (fun q _ ↦ q.role = .extender) (extenderExit true lbsInfo info)
      (.disowned ⟨lbsInfo, m, info⟩) := Keeps.sendNotif hsend hpop fun _ ↦ hpop
  have hdisown : ∀ err, Keeps J cfg c Session.Exit
      (Op.metric (.lockExtensionAttempt lbsInfo.dataStreamName false) >>= fun _ ↦
        extenderExit true lbsInfo info >>= fun _ ↦ .ret (.inl (.extended err)))
      (.disowned ⟨lbsInfo, m, info⟩) := by
    intro err
    refine Keeps.metric (by simp) (Session.noGap_of_role (by simp [Session.role])) ?_
    exact hexit.bind fun _ _ h ↦ h
  have hextended : (Session.extender ⟨lbsInfo, m, info⟩).NoGap :=
    Session.noGap_of_role (by simp [Session.role])
  rintro ⟨_ | _, _ | err⟩
  · exact hdisown _
  · exact hdisown _
  · exact Keeps.metric (by simp) hextended (keeps_sleepFor.2 ⟨hextended, rfl⟩)
  · exact hdisown _

end Extender

section Reader

/-- A successful `acquire` ends with the message done. -/
theorem acquire_obeys {message : XMessage} {todo : List XMessage} {msg : LBSInputMessage}
    (hn : (LBSEntry.mk message.id message.values).dataStreamName J = .ok msg.dataStreamName) :
    Keeps J cfg c (fun q e ↦ if e = none then q = .batch todo else q = .stopped)
      (processLBSMessage.acquire (cfg c) msg ⟨msg.dataStreamName, message.id⟩)
      (.batch (message :: todo)) := by
  have hgap : ∀ q : Session, q.role = .reader → q.NoGap := fun q hq ↦
    Session.noGap_of_role (by simp [hq])
  rw [processLBSMessage.acquire, keeps_lockMutex]
  refine ⟨⟨_, _, _, rfl, hn, rfl⟩, ?_⟩
  rintro (_ | err)
  · simp only [Session.onLock, hn]
    refine Keeps.metric (by simp) (hgap _ rfl) ?_
    rw [keeps_setStreamLocks]
    refine ⟨⟨_, _, rfl, rfl, rfl⟩, ?_⟩
    refine Keeps.sendNotif rfl ?_ fun _ ↦ ?_
    · refine Keeps.metric (by simp) (hgap _ rfl) ?_
      exact keeps_goExtend.2 ⟨⟨_, .inl rfl⟩, rfl⟩
    · refine Keeps.metric (by simp) (hgap _ rfl) ?_
      exact keeps_goExtend.2 ⟨⟨_, .inr rfl⟩, rfl⟩
  · exact Keeps.metric (by simp) (hgap _ rfl) (by simp [Session.onLock])

/-- What is left of a batch when a message failed. -/
def Session.Stopped (q : Session) : Prop := q = .stopped ∨ ∃ todo, q = .batch todo

theorem processLBSMessage_obeys {message : XMessage} {todo : List XMessage} :
    Keeps J cfg c (fun q e ↦ if e = none then q = .batch todo else q.Stopped)
      (processLBSMessage J (cfg c) message) (.batch (message :: todo)) := by
  have hstop : (Session.batch (message :: todo)).Stopped := .inr ⟨_, rfl⟩
  unfold processLBSMessage
  split
  · simpa using hstop
  · simpa using hstop
  next val hv =>
  split
  · simpa using hstop
  next msg hm =>
  by_cases hne : msg.dataStreamName = ""
  · simpa [hne] using hstop
  by_cases hid : message.id = ""
  · simpa [hne, hid, createByParts] using hstop
  simp only [hne, hid, createByParts, or_self, if_false]
  have hn : (LBSEntry.mk message.id message.values).dataStreamName J = .ok msg.dataStreamName := by
    simp [LBSEntry.dataStreamName, hv, hm, hne]
  refine (acquire_obeys hn).mono ?_
  intro q e h
  split at h
  · next he => simpa [he] using h
  · next he => simpa [he] using .inl h

theorem processLBSMessages_obeys {messages : List XMessage} :
    Keeps J cfg c (fun q e ↦ if e = none then q = .batch [] else q.Stopped)
      (processLBSMessages J (cfg c) messages) (.batch messages) := by
  induction messages with
  | nil => simp [processLBSMessages]
  | cons message messages ih =>
    rw [processLBSMessages]
    refine processLBSMessage_obeys.bind ?_
    rintro q (_ | err) h
    · obtain rfl : q = .batch messages := by simpa using h
      exact ih
    · simpa using h

theorem terminate_obeys {info : String} {q : Session} (hq : q.Stopped) :
    Keeps J cfg c Session.Exit (readLBSStream.terminate info) q := by
  rcases hq with rfl | ⟨todo, rfl⟩ <;>
    exact Keeps.sendNotif rfl (.inr rfl) fun _ ↦ .inr rfl

theorem readLBSStream_obeys {n d : Int} :
    Keeps J cfg c Session.Exit (readLBSStream J (cfg c) n d) (.batch []) := by
  have hstop : (Session.batch []).Stopped := .inr ⟨_, rfl⟩
  have hgap : (Session.batch []).NoGap := Session.noGap_of_role (by decide)
  rw [readLBSStream, keeps_contextDone]
  refine ⟨hgap, ?_⟩
  rintro (_ | _)
  swap
  · exact terminate_obeys hstop
  simp only [Session.onContextDone, Bool.false_eq_true, if_false, keeps_xReadGroup]
  refine ⟨⟨rfl, rfl, rfl, rfl⟩, ?_⟩
  rintro (err | streams)
  · simp only [Session.onReadGroup]
    split
    · exact terminate_obeys hstop
    split
    · exact terminate_obeys hstop
    rw [keeps_afterOrDone]
    refine ⟨hgap, ?_⟩
    rintro (_ | _)
    · rfl
    · exact terminate_obeys hstop
  · refine processLBSMessages_obeys.bind ?_
    rintro q (_ | err) h
    · obtain rfl : q = .batch [] := by simpa using h
      show Keeps J cfg c Session.Exit (if 0 < n then _ else _) _
      split <;> rfl
    · exact terminate_obeys (by simpa using h)

end Reader

/-- A goroutine of the broker may do what it likes to the broker. -/
theorem broker_obeys {A : Type} (p : Prog Broker.sig A) :
    Keeps J cfg c (fun q _ ↦ q = .broker) (p.embed (T := sig) .broker fun _ r ↦ r)
      .broker := by
  induction p with
  | ret a => rfl
  | call o k ih =>
    have hok : Session.broker.OkBroker o := by
      cases o <;> first | trivial | exact fun _ _ ↦ nofun
    cases o <;> exact ⟨hok, fun r ↦ ih r⟩

theorem body_obeys {f : Call} {q : Session} (hq : q = .start f ∨ q.Exit (.inr f)) :
    Keeps J cfg c Session.Exit (body J cfg c f) q := by
  cases f with
  | claim lbsInfo =>
    obtain rfl : q = .start (.claim lbsInfo) := by simpa [Session.Exit] using hq
    exact claim_obeys.bind fun q' e h ↦ h
  | doneStream name =>
    obtain rfl : q = .finishing := by simpa [Session.start, Session.Exit] using hq
    exact doneStream_obeys.bind fun q' e h ↦ h
  | reconcile startup =>
    refine runReconciliationLoop_obeys ?_
    rcases hq with rfl | hq
    · exact ⟨rfl, trivial⟩
    · exact hq
  | readLBSStream n d =>
    obtain rfl : q = .batch [] := by simpa [Session.start, Session.Exit] using hq
    exact readLBSStream_obeys
  | startExtendingKey m lbsInfo info =>
    obtain rfl : q = .extender ⟨lbsInfo, m, info⟩ := by
      simpa [Session.start, Session.Exit] using hq
    exact startExtendingKey_obeys
  | broker f =>
    obtain rfl : q = .broker := by simpa [Session.start, Session.Exit] using hq
    refine (broker_obeys _).bind ?_
    rintro q' (r | f) hq' <;> exact hq'

/-- **The contract of the client's code.** -/
def contract (J : Json) (cfg : Nat → Client) : Contract (machine J cfg) where
  toMonitor := monitor J cfg
  init _ f := .start f
  Exit _ q x := q.Exit x
  body_obeys _ _ := body_obeys (.inl rfl)
  again_obeys _ _ _ h := body_obeys (.inr h)

end RedisStreamClient.Impl
