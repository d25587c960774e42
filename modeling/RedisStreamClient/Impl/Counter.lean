import RedisStreamClient.Impl.Backoff

/-!
# The retry counter

`reQueue` reads the retry counter of an entry from a field that its producer controls, adds
one to it and writes it to the entry's successor.  The counter is a 64-bit `int`, so the
largest one wraps around; the successor's counter then reads as zero.

`Readds` lists what `reQueue` adds to the LBS again, by what it read, whatever else it is
told.  It includes the copy for the dead letter queue where that is the LBS itself.
-/

namespace RedisStreamClient.Impl

open RedisStreamClient.Lib RedisStreamClient.Errs RedisStreamClient.Notifs
open RedisStreamClient.Redis

/-- What an operation adds to a stream. -/
def Op.addedTo (stream : String) : Op → Option Values
  | .xadd s _ values => if s = stream then some values else none
  | _ => none

/-- What was added to the LBS. -/
def readded (r : Client) (xs : List Act) : List Values :=
  xs.filterMap fun x ↦ x.1.addedTo r.lbsName

/-- The first command of a run read the message `m`. -/
def ReadFirst (r : Client) (id : String) (m : XMessage) (xs : List Act) : Prop :=
  ∃ ms, xs.head? = some ⟨.xrange r.lbsName id id, .ok (m :: ms)⟩

/-- What `reQueue` may add to the LBS for an entry. -/
inductive Readds (J : Json) (r : Client) (e : LBSEntry) : Values → Prop
  | /-- The successor. -/
    requeued {name : String} (hname : e.dataStreamName J = .ok name)
      (hle : wrap64 (e.retryCount + 1) ≤ r.recoveryConfig.maxRetries) :
      Readds J r e (e.requeued (wrap64 (e.retryCount + 1)))
  | /-- The copy of an entry whose retries are spent. -/
    spent {name : String} (hname : e.dataStreamName J = .ok name)
      (hlt : r.recoveryConfig.maxRetries < wrap64 (e.retryCount + 1))
      (hdlq : r.recoveryConfig.dlqStream = r.lbsName) :
      Readds J r e (e.deadLettered (wrap64 (e.retryCount + 1)) Configs.dlqReasonMaxRetries)
  | /-- The copy of an entry that cannot be parsed. -/
    unparseable {err : Err} (herr : e.dataStreamName J = .error err)
      (hdlq : r.recoveryConfig.dlqStream = r.lbsName) :
      Readds J r e (e.deadLettered e.retryCount Configs.dlqReasonUnparseable)

section

variable {A : Type} {J : Json} {r : Client} {P : (o : Op) → o.Reply → Prop} {e : LBSEntry}
  {id name reason : String} {n : Int} {Q : Values → Prop}

/-- A program that adds nothing to the LBS but what `Q` allows. -/
def AddsOnly (r : Client) (Q : Values → Prop) (p : Prog sig A) : Prop :=
  p.Only fun o : Op ↦ ∀ v ∈ o.addedTo r.lbsName, Q v

theorem AddsOnly.ret (a : A) : AddsOnly r Q (.ret a) := trivial

/-- An operation that adds nothing. -/
theorem AddsOnly.call {o : Op} {k : o.Reply → Prog sig A} (ho : o.addedTo r.lbsName = none)
    (h : ∀ reply, AddsOnly r Q (k reply)) : AddsOnly r Q (.call o k) :=
  ⟨by simp [ho], h⟩

theorem AddsOnly.xadd {stream : String} {maxLen : Int} {v : Values}
    {k : (Op.xadd stream maxLen v).Reply → Prog sig A} (hv : stream = r.lbsName → Q v)
    (h : ∀ reply, AddsOnly r Q (k reply)) : AddsOnly r Q (.call (.xadd stream maxLen v) k) := by
  refine ⟨fun w hw ↦ ?_, h⟩
  rw [Op.addedTo] at hw
  split at hw
  · next hs =>
    obtain rfl := Option.some.inj hw
    exact hv hs
  · cases hw

theorem AddsOnly.bind {B : Type} {p : Prog sig A} {f : A → Prog sig B} (hp : AddsOnly r Q p)
    (hf : ∀ a, AddsOnly r Q (f a)) : AddsOnly r Q (p >>= f) := Prog.Only.bind hp hf

theorem AddsOnly.readded {p : Prog sig A} (hp : AddsOnly r Q p) {xs : List Act} {a : A}
    (hr : p.Runs (Prog.Records P) xs a) : ∀ v ∈ readded r xs, Q v := by
  intro v hv
  obtain ⟨x, hx, hv⟩ := List.mem_filterMap.1 hv
  exact hr.only hp x hx v hv

/-- What `routeToDLQ` adds. -/
theorem addsOnly_routeToDLQ
    (hQ : r.recoveryConfig.dlqStream = r.lbsName → Q (e.deadLettered n reason)) :
    AddsOnly r Q (routeToDLQ r name e n reason) := by
  rw [routeToDLQ]
  refine .call (o := .xack _ _ _) rfl ?_
  rintro (err | acked)
  · exact .ret _
  · show AddsOnly r Q (if acked = 0 then _ else _)
    split
    · exact .ret _
    · split
      · refine .xadd hQ ?_
        rintro (err | t)
        · exact .call (o := .record _) rfl fun _ ↦ .ret _
        · refine .call (o := .record _) rfl fun _ ↦ ?_
          exact .call (o := .xdel _ _) rfl fun _ ↦ .ret _
      · exact .call (o := .xdel _ _) rfl fun _ ↦ .ret _

/-- What `reAdd` adds. -/
theorem addsOnly_reAdd (hname : e.dataStreamName J = .ok name) :
    AddsOnly r (Readds J r e) (reAdd r id name e) := by
  rw [reAdd]
  split
  · next hlt => exact (addsOnly_routeToDLQ (.spent hname hlt)).bind fun _ ↦ .ret _
  · next hle =>
    refine .call (o := .xack _ _ _) rfl ?_
    rintro (err | acked)
    · exact .call (o := .record _) rfl fun _ ↦ .ret _
    · show AddsOnly r _ (if acked = 0 then _ else _)
      split
      · exact .ret _
      · refine .xadd (fun _ ↦ .requeued hname (not_lt.1 hle)) ?_
        rintro (err | t)
        · refine .call (o := .record _) rfl fun _ ↦ ?_
          exact .call (o := .record _) rfl fun _ ↦ .ret _
        · refine .call (o := .xdel _ _) rfl fun _ ↦ ?_
          exact .call (o := .record _) rfl fun _ ↦ .ret _

/-- **What `reQueue` adds to the LBS**, by the entry that its first command read. -/
theorem readds_of_reQueue {xs : List Act} {out : ReQueueOutcome × String × Option Err}
    (hr : (reQueue J r id).Runs (Prog.Records P) xs out) {m : XMessage} (hm : ReadFirst r id m xs) :
    ∀ v ∈ readded r xs, Readds J r ⟨id, m.values⟩ v := by
  obtain ⟨ms, hm⟩ := hm
  rw [reQueue, readLBSEntry] at hr
  cases hr with
  | @call o k x reply ys a hx hk =>
    obtain ⟨rfl, -⟩ := hx
    obtain rfl : reply = .ok (m :: ms) := eq_of_heq (Sigma.mk.inj (Option.some.inj hm)).2
    show ∀ v ∈ readded r ys, _
    refine AddsOnly.readded ?_ hk
    show AddsOnly r _ (Prog.bind (.ret (Except.ok (some (LBSEntry.mk id m.values)) :
      Except Err (Option LBSEntry))) _)
    dsimp only [Prog.bind]
    split
    · next err herr => exact (addsOnly_routeToDLQ (.unparseable herr)).bind fun _ ↦ .ret _
    · next name hname =>
      split
      · exact .ret _
      · refine .call (o := .existsKey _) rfl ?_
        rintro (err | alive)
        · exact .ret _
        · show AddsOnly r _ (Prog.bind (.ret (Except.ok (decide (0 < alive)) : Except Err Bool)) _)
          cases decide (0 < alive) with
          | true => exact .call (o := .record _) rfl fun _ ↦ .ret _
          | false => exact addsOnly_reAdd hname

/-! ## Every addition occurs -/

theorem lbsName_ne_empty (r : Client) : r.lbsName ≠ "" := by
  intro h
  have := congrArg String.length h
  simp [Client.lbsName, Configs.inputSuffix] at this

/-- A copy for the dead letter queue is added to the LBS, where that is the queue. -/
theorem exists_runs_routeToDLQ (e : LBSEntry) (name reason : String) (n : Int)
    (hdlq : r.recoveryConfig.dlqStream = r.lbsName) :
    ∃ xs out, (routeToDLQ r name e n reason).Runs (Prog.Records fun _ _ ↦ True) xs out ∧
      e.deadLettered n reason ∈ readded r xs := by
  have hne : r.recoveryConfig.dlqStream ≠ "" := hdlq ▸ lbsName_ne_empty r
  refine ⟨[⟨.xack r.lbsName r.lbsGroupName e.id, .ok 1⟩, ⟨.xadd r.recoveryConfig.dlqStream
    r.recoveryConfig.dlqMaxLen (e.deadLettered n reason), .ok "2-0"⟩,
    ⟨.record (.dlqRouting name), ()⟩, ⟨.xdel r.lbsName e.id, .ok 1⟩], (.dlq, none), ?_, ?_⟩
  · rw [routeToDLQ]
    refine .call (S := sig) (o := .xack _ _ _) ⟨rfl, trivial⟩ ?_
    show Prog.Runs _ (if r.recoveryConfig.dlqStream ≠ "" then _ else _) _ _
    split
    · refine .call (S := sig) (o := .xadd _ _ _) ⟨rfl, trivial⟩ ?_
      refine .call (S := sig) (o := .record _) ⟨rfl, trivial⟩ ?_
      exact .call (S := sig) (o := .xdel _ _) ⟨rfl, trivial⟩ (.ret _)
    · next h => exact absurd hne h
  · simp [readded, Op.addedTo, hdlq]

/-- A successor is added to the LBS. -/
theorem exists_runs_reAdd (hle : wrap64 (e.retryCount + 1) ≤ r.recoveryConfig.maxRetries) :
    ∃ xs out, (reAdd r id name e).Runs (Prog.Records fun _ _ ↦ True) xs out ∧
      e.requeued (wrap64 (e.retryCount + 1)) ∈ readded r xs := by
  refine ⟨[⟨.xack r.lbsName r.lbsGroupName id, .ok 1⟩, ⟨.xadd r.lbsName 0
    (e.requeued (wrap64 (e.retryCount + 1))), .ok "2-0"⟩, ⟨.xdel r.lbsName id, .ok 1⟩,
    ⟨.record (.reQueue name true), ()⟩], (.requeued, name, none), ?_, ?_⟩
  · rw [reAdd]
    split
    · next h => exact absurd h (not_lt.2 hle)
    · refine .call (S := sig) (o := .xack _ _ _) ⟨rfl, trivial⟩ ?_
      refine .call (S := sig) (o := .xadd _ _ _) ⟨rfl, trivial⟩ ?_
      refine .call (S := sig) (o := .xdel _ _) ⟨rfl, trivial⟩ ?_
      exact .call (S := sig) (o := .record _) ⟨rfl, trivial⟩ (.ret _)
  · simp [readded, Op.addedTo]

/-- A copy of an entry whose retries are spent is added to the LBS, where that is the dead
letter queue. -/
theorem exists_runs_reAdd_spent (hlt : r.recoveryConfig.maxRetries < wrap64 (e.retryCount + 1))
    (hdlq : r.recoveryConfig.dlqStream = r.lbsName) :
    ∃ xs out, (reAdd r id name e).Runs (Prog.Records fun _ _ ↦ True) xs out ∧
      e.deadLettered (wrap64 (e.retryCount + 1)) Configs.dlqReasonMaxRetries ∈ readded r xs := by
  obtain ⟨xs, ⟨out, err⟩, hr, hw⟩ := exists_runs_routeToDLQ e name
    Configs.dlqReasonMaxRetries (wrap64 (e.retryCount + 1)) hdlq
  refine ⟨xs ++ [], (out, name, err), ?_, by rwa [List.append_nil]⟩
  rw [reAdd]
  split
  · exact hr.bind (.ret _)
  · next h => exact absurd hlt h

/-- The read of an entry that is there. -/
def entryRead (r : Client) (v : Values) : Act :=
  ⟨.xrange r.lbsName "1-0" "1-0", .ok [⟨"1-0", v⟩]⟩

theorem runs_reQueue_parsed {v : Values} (hname : LBSEntry.dataStreamName J ⟨"1-0", v⟩ = .ok name)
    {ys : List Act} {out : ReQueueOutcome × String × Option Err}
    (hr : (reAdd r "1-0" name ⟨"1-0", v⟩).Runs (Prog.Records fun _ _ ↦ True) ys out) :
    (reQueue J r "1-0").Runs (Prog.Records fun _ _ ↦ True)
      (entryRead r v :: ⟨.existsKey (LBSInfo.mk name "1-0").formMutexKey, .ok 0⟩ :: ys) out := by
  have hparts : createByParts name "1-0" = .ok ⟨name, "1-0"⟩ := by
    rw [createByParts, if_neg]
    rintro (h | h)
    · exact LBSEntry.dataStreamName_ne_empty hname h
    · exact absurd h (by decide)
  rw [reQueue, readLBSEntry]
  refine .call (S := sig) (o := .xrange _ _ _) ⟨rfl, trivial⟩ ?_
  show Prog.Runs _ (Prog.bind (.ret (Except.ok (some (LBSEntry.mk "1-0" v)) :
    Except Err (Option LBSEntry))) _) _ _
  dsimp only [Prog.bind]
  rw [hname]
  dsimp only
  rw [hparts]
  exact .call (S := sig) (o := .existsKey _) ⟨rfl, trivial⟩ hr

theorem runs_reQueue_unparsed {v : Values} {err : Err}
    (herr : LBSEntry.dataStreamName J ⟨"1-0", v⟩ = .error err) {ys : List Act}
    {out : ReQueueOutcome × Option Err}
    (hr : (routeToDLQ r unknownDataStream ⟨"1-0", v⟩ (LBSEntry.mk "1-0" v).retryCount
      Configs.dlqReasonUnparseable).Runs (Prog.Records fun _ _ ↦ True) ys out) :
    (reQueue J r "1-0").Runs (Prog.Records fun _ _ ↦ True) (entryRead r v :: (ys ++ []))
      (out.1, unknownDataStream, out.2) := by
  rw [reQueue, readLBSEntry]
  refine .call (S := sig) (o := .xrange _ _ _) ⟨rfl, trivial⟩ ?_
  show Prog.Runs _ (Prog.bind (.ret (Except.ok (some (LBSEntry.mk "1-0" v)) :
    Except Err (Option LBSEntry))) _) _ _
  dsimp only [Prog.bind]
  rw [herr]
  exact hr.bind (.ret _)

/-- **Everything that `reQueue` may add, it adds in some run.** -/
theorem exists_runs_reQueue {v w : Values} (h : Readds J r ⟨"1-0", v⟩ w) :
    ∃ xs out, (reQueue J r "1-0").Runs (Prog.Records fun _ _ ↦ True) xs out ∧
      ReadFirst r "1-0" ⟨"1-0", v⟩ xs ∧ w ∈ readded r xs := by
  cases h with
  | requeued hname hle =>
    obtain ⟨ys, out, hr, hw⟩ := exists_runs_reAdd hle
    exact ⟨_, out, runs_reQueue_parsed hname hr, ⟨[], rfl⟩, hw⟩
  | spent hname hlt hdlq =>
    obtain ⟨ys, out, hr, hw⟩ := exists_runs_reAdd_spent hlt hdlq
    exact ⟨_, out, runs_reQueue_parsed hname hr, ⟨[], rfl⟩, hw⟩
  | unparseable herr hdlq =>
    obtain ⟨ys, out, hr, hw⟩ := exists_runs_routeToDLQ _ _ _ _ hdlq
    exact ⟨_, _, runs_reQueue_unparsed herr hr, ⟨[], rfl⟩, by rwa [List.append_nil]⟩

/-! ## The counter of the successor -/

/-- What a run of `reQueue` on an entry added to the LBS counts on from the entry, and it added
nothing if the entry's retries are spent. -/
structure CountsOn (r : Client) (e : LBSEntry) (xs : List Act) : Prop where
  succ : ∀ v ∈ readded r xs, ∀ id, (LBSEntry.mk id v).retryCount = e.retryCount + 1
  spent : r.recoveryConfig.maxRetries ≤ e.retryCount → readded r xs = []

/-- The entry's counter can be increased, and a copy for the dead letter queue is no entry of
the LBS. -/
structure Countable (J : Json) (r : Client) (e : LBSEntry) : Prop where
  lt_maxInt : ∀ name, e.dataStreamName J = .ok name → e.retryCount < maxInt
  dlqStream : r.recoveryConfig.dlqStream = r.lbsName →
    ∃ name, e.dataStreamName J = .ok name ∧ e.retryCount < r.recoveryConfig.maxRetries

theorem wrap64_retryCount_succ (h : e.retryCount < maxInt) :
    wrap64 (e.retryCount + 1) = e.retryCount + 1 := by
  have hlo := e.retryCount_nonneg
  exact wrap64_of_mem (by omega) h

/-- What is added for such an entry counts on from it. -/
theorem Countable.readds (he : Countable J r e) {v : Values} (h : Readds J r e v) :
    (∀ id, (LBSEntry.mk id v).retryCount = e.retryCount + 1) ∧
      e.retryCount < r.recoveryConfig.maxRetries := by
  have hlo := e.retryCount_nonneg
  cases h with
  | requeued hname hle =>
    have hlt := he.lt_maxInt _ hname
    rw [wrap64_retryCount_succ hlt] at hle ⊢
    exact ⟨fun id ↦ e.retryCount_requeued id (by omega) hlt, by omega⟩
  | spent hname hlt hdlq =>
    rw [wrap64_retryCount_succ (he.lt_maxInt _ hname)] at hlt
    obtain ⟨-, -, hleft⟩ := he.dlqStream hdlq
    omega
  | unparseable herr hdlq =>
    obtain ⟨name, hname, -⟩ := he.dlqStream hdlq
    cases herr.symm.trans hname

theorem Countable.countsOn (he : Countable J r e) {xs : List Act}
    (h : ∀ v ∈ readded r xs, Readds J r e v) : CountsOn r e xs where
  succ v hv := (he.readds (h v hv)).1
  spent hge := List.eq_nil_iff_forall_not_mem.2 fun v hv ↦
    absurd (he.readds (h v hv)).2 (not_lt.2 hge)

/-- Where everything that is added counts on, the counter can be increased. -/
theorem countable_of_countsOn (hmax : 0 ≤ r.recoveryConfig.maxRetries)
    (h : ∀ v, Readds J r e v → ∃ xs, v ∈ readded r xs ∧ CountsOn r e xs) : Countable J r e where
  lt_maxInt name hname := by
    by_contra hge
    have hcount : e.retryCount = maxInt := le_antisymm e.retryCount_le_maxInt (not_lt.1 hge)
    have hwrap : wrap64 (e.retryCount + 1) = -(2 ^ 63) := by rw [hcount, wrap64_maxInt_succ]
    obtain ⟨xs, hv, hc⟩ := h _ (.requeued hname (by omega))
    have hsucc := hc.succ _ hv e.id
    rw [hwrap, e.retryCount_requeued_minInt, hcount] at hsucc
    exact absurd hsucc (by decide)
  dlqStream hdlq := by
    cases hname : e.dataStreamName J with
    | error err =>
      obtain ⟨xs, hv, hc⟩ := h _ (.unparseable hname hdlq)
      have hsucc := hc.succ _ hv e.id
      rw [e.retryCount_deadLettered _ _ e.retryCount_nonneg e.retryCount_le_maxInt] at hsucc
      omega
    | ok name =>
      refine ⟨name, rfl, not_le.1 fun hge ↦ ?_⟩
      obtain ⟨v, hv⟩ : ∃ v, Readds J r e v := by
        rcases le_or_gt (wrap64 (e.retryCount + 1)) r.recoveryConfig.maxRetries with hle | hlt
        · exact ⟨_, .requeued hname hle⟩
        · exact ⟨_, .spent hname hlt hdlq⟩
      obtain ⟨xs, hv, hc⟩ := h v hv
      rw [hc.spent hge] at hv
      cases hv

end

/-- **`reQueue` counts every retry exactly where the counter can be increased.**  Whatever the
commands reply, what a run of `reQueue` adds to the LBS for an entry with these fields reads as
one retry more than the entry, and nothing is added once the retries are spent; this is so iff
the counter is below the largest `int` and the dead letter queue is not the LBS (or has no
copies of this entry). -/
theorem reQueue_counts_iff (J : Json) (r : Client) (hmax : 0 ≤ r.recoveryConfig.maxRetries)
    (v : Values) :
    (∀ id xs out m, (reQueue J r id).Runs (Prog.Records fun _ _ ↦ True) xs out →
      ReadFirst r id m xs → m.values = v → CountsOn r ⟨id, v⟩ xs) ↔
    ∀ id, Countable J r ⟨id, v⟩ := by
  constructor
  · intro h id
    -- the ID plays no part in the counter and the name, so that of the run at hand will do
    have hone : Countable J r ⟨"1-0", v⟩ := by
      refine countable_of_countsOn hmax fun w hw ↦ ?_
      obtain ⟨xs, out, hr, hread, hw⟩ := exists_runs_reQueue hw
      exact ⟨xs, hw, h _ xs out _ hr hread rfl⟩
    exact ⟨hone.lt_maxInt, hone.dlqStream⟩
  · rintro h id xs out m hr hread rfl
    exact (h id).countsOn (readds_of_reQueue hr hread)

namespace Demo

/-- An entry for the data stream "orders" that was tried so often. -/
def tried (n : Int) : Values :=
  (Finmap.singleton Configs.retryCountField (.str (itoa n))).insert Configs.lbsInput (.str "orders")

theorem retryCount_tried (id : String) {n : Int} (hlo : 0 ≤ n) (hhi : n ≤ maxInt) :
    (LBSEntry.mk id (tried n)).retryCount = n := by
  refine LBSEntry.retryCount_of_lookup hlo hhi ?_
  have hne : Configs.retryCountField ≠ Configs.lbsInput := by decide
  exact (Finmap.lookup_insert_of_ne _ hne).trans Finmap.lookup_singleton_eq

theorem dataStreamName_tried (id : String) (n : Int) :
    LBSEntry.dataStreamName bareJson ⟨id, tried n⟩ = .ok "orders" := by
  have hlookup : (tried n).lookup Configs.lbsInput = some (.str "orders") :=
    Finmap.lookup_insert _
  simp only [LBSEntry.dataStreamName, hlookup, bareJson]
  rfl

/-- The dead letter queue is off. -/
theorem dlqStream_reader_ne_lbsName :
    (reader 5 1 1).recoveryConfig.dlqStream ≠ (reader 5 1 1).lbsName :=
  (lbsName_ne_empty _).symm

theorem countable_tried (id : String) {n : Int} (hlo : 0 ≤ n) (hlt : n < maxInt) :
    Countable bareJson (reader 5 1 1) ⟨id, tried n⟩ where
  lt_maxInt _ _ := by rwa [retryCount_tried id hlo hlt.le]
  dlqStream h := absurd h dlqStream_reader_ne_lbsName

/-- Every entry that can be parsed and has retries left is added again in some run. -/
theorem exists_runs_tried {n : Int} (hlo : 0 ≤ n) (hhi : n ≤ maxInt) (hle : wrap64 (n + 1) ≤ 3) :
    ∃ xs out, (reQueue bareJson (reader 5 1 1) "1-0").Runs (Prog.Records fun _ _ ↦ True) xs out ∧
      ReadFirst (reader 5 1 1) "1-0" ⟨"1-0", tried n⟩ xs ∧
      LBSEntry.requeued ⟨"1-0", tried n⟩ (wrap64 (n + 1)) ∈ readded (reader 5 1 1) xs := by
  have hcount := retryCount_tried "1-0" hlo hhi
  have h := Readds.requeued (r := reader 5 1 1) (dataStreamName_tried "1-0" n)
    (by rw [hcount]; exact hle)
  rw [hcount] at h
  exact exists_runs_reQueue h

end Demo

/-- An entry that was tried twice comes back with three tries. -/
theorem reQueue_counts_third_try :
    ∃ xs v, v ∈ readded (Demo.reader 5 1 1) xs ∧ (LBSEntry.mk "2-0" v).retryCount = 2 + 1 := by
  obtain ⟨xs, out, hr, hread, hv⟩ :=
    Demo.exists_runs_tried (n := 2) (by decide) (by decide) (by decide)
  have hcounts := (reQueue_counts_iff Demo.bareJson (Demo.reader 5 1 1) (by decide) (Demo.tried 2)).2
    (fun id ↦ Demo.countable_tried id (by decide) (by decide)) "1-0" xs out _ hr hread rfl
  refine ⟨xs, _, hv, ?_⟩
  rw [hcounts.succ _ hv, Demo.retryCount_tried "1-0" (by decide) (by decide)]

/-- An entry whose counter is the largest `int` is added to the LBS again, and its successor
starts from zero. -/
theorem reQueue_resets_counter :
    ∃ xs out v, (reQueue Demo.bareJson (Demo.reader 5 1 1) "1-0").Runs
        (Prog.Records fun _ _ ↦ True) xs out ∧
      ReadFirst (Demo.reader 5 1 1) "1-0" ⟨"1-0", Demo.tried maxInt⟩ xs ∧
      (LBSEntry.mk "1-0" (Demo.tried maxInt)).retryCount = maxInt ∧
      v ∈ readded (Demo.reader 5 1 1) xs ∧ (LBSEntry.mk "2-0" v).retryCount = 0 := by
  obtain ⟨xs, out, hr, hread, hv⟩ :=
    Demo.exists_runs_tried (n := maxInt) (by decide) le_rfl (by decide)
  refine ⟨xs, out, _, hr, hread, Demo.retryCount_tried "1-0" (by decide) le_rfl, hv, ?_⟩
  rw [wrap64_maxInt_succ, LBSEntry.retryCount_requeued_minInt]

end RedisStreamClient.Impl
