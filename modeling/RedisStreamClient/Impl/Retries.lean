import RedisStreamClient.Impl.Naming
import RedisStreamClient.Impl.Trace

/-!
# Retries and the dead letter queue

A task goes through a chain of re-queues, made by any clients, until one of them finds
its retries used up and routes it to its DLQ.  Besides its history a run carries the
`Successor`s that recoverers have added, with the entry each of them stands for.

`requeue_chain` says what every entry of the chain of a producer's entry looks like, who
may add what after it, how long the chain can get, and that a chain that ended in a DLQ
leaves nothing behind in the LBS.  It needs every `MaxRetries` to be less than the largest
`int`: `requeued_past_maxInt` shows that the retry count wraps around else, and the chain
goes on for ever.  It also needs that no client uses the LBS as its DLQ, since a dead letter
would stay there.
-/

namespace RedisStreamClient.Impl

open RedisStreamClient.Lib RedisStreamClient.Errs RedisStreamClient.Notifs
open RedisStreamClient.Redis

/-! ## Chains of re-queues -/

/-- The entry `j` was re-added from the entry `i` by `k` re-queues one after another. -/
inductive History.Chain (h : History) (i : StreamID) : Nat → StreamID → Prop
  | root : Chain h i 0 i
  | next {k : Nat} {j l : StreamID} (hc : Chain h i k j) (hp : h.parent l = some j) :
      Chain h i (k + 1) l

/-- The fields of an entry that was produced with fields `v`, after `k` re-queues. -/
def requeuedTimes (v : Values) : Nat → Values
  | 0 => v
  | k + 1 => v.insert Configs.retryCountField (.str (itoa (k + 1 : Nat)))

/-- The fields of the copy in the DLQ that stands for the `k`th re-queue. -/
def deadLetter (v : Values) (k : Nat) : Values :=
  (v.insert Configs.retryCountField (.str (itoa k))).insert Configs.dlqReasonField
    (.str Configs.dlqReasonMaxRetries)

section Chain

variable {h : History} {i j l : StreamID} {k m : Nat}

/-- Chains go the same way, if no entry has two successors. -/
theorem History.Chain.unique (hp : ∀ i j k, h.parent j = some i → h.parent k = some i → j = k)
    (hj : h.Chain i k j) (hl : h.Chain i k l) : j = l := by
  induction hj generalizing l with
  | root =>
    cases hl
    rfl
  | next _ hpj ih =>
    cases hl with
    | next hc hpl =>
      obtain rfl := ih hc
      exact hp _ _ _ hpj hpl

/-- A longer chain goes on from every entry it passes. -/
theorem History.Chain.exists_child (hj : h.Chain i k j) (hm : m < k) :
    ∃ x y, h.Chain i m x ∧ h.parent y = some x := by
  induction hj with
  | root => exact absurd hm (Nat.not_lt_zero m)
  | @next k x y hc hp ih =>
    rcases Nat.lt_succ_iff_lt_or_eq.1 hm with hlt | rfl
    · exact ih hlt
    · exact ⟨x, y, hc, hp⟩

variable {v : Values}

theorem lookup_requeuedTimes {field : String} (hne : field ≠ Configs.retryCountField) (k : Nat) :
    (requeuedTimes v k).lookup field = v.lookup field := by
  cases k with
  | zero => rfl
  | succ k => exact Finmap.lookup_insert_of_ne _ hne

theorem nameOf_requeuedTimes (V : Service) (k : Nat) : V.nameOf (requeuedTimes v k) = V.nameOf v := by
  cases k with
  | zero => rfl
  | succ k =>
    exact congrArg Except.toOption (LBSEntry.dataStreamName_requeued V.json ⟨"", v⟩ "" (k + 1 : Nat))

/-- The retry count that an entry carries is the number of its re-queues. -/
theorem retryCount_requeuedTimes (hv : v.lookup Configs.retryCountField = none)
    (hk : (k : Int) ≤ maxInt) (id : String) :
    (LBSEntry.mk id (requeuedTimes v k)).retryCount = k := by
  cases k with
  | zero => simp [LBSEntry.retryCount, requeuedTimes, hv]
  | succ k =>
    have hread := atoi_itoa (Int.natCast_nonneg (k + 1)) hk
    have hpos : ¬ ((k + 1 : Nat) : Int) < 0 := not_lt.2 (Int.natCast_nonneg _)
    simp only [LBSEntry.retryCount, requeuedTimes, Finmap.lookup_insert, hread, if_neg hpos]

theorem requeued_requeuedTimes (k : Nat) (id : String) (n : Int) :
    (LBSEntry.mk id (requeuedTimes v k)).requeued n =
      v.insert Configs.retryCountField (.str (itoa n)) := by
  cases k with
  | zero => rfl
  | succ k => exact Finmap.insert_insert _

/-- **What a client adds in the place of an entry of the chain.** -/
theorem successor_requeuedTimes {V : Service} {c : Nat} {name : String}
    (hname : V.nameOf v = some name) (hv : v.lookup Configs.retryCountField = none)
    (hk : (k : Int) < maxInt) :
    V.successor c i (requeuedTimes v k) =
      if (V.client c).recoveryConfig.maxRetries < (k + 1 : Nat) then
        ((V.client c).recoveryConfig.dlqStream, deadLetter v (k + 1))
      else (V.lbs, requeuedTimes v (k + 1)) := by
  have hnext : wrap64 ((LBSEntry.mk i.text (requeuedTimes v k)).retryCount + 1) = (k + 1 : Nat) := by
    rw [retryCount_requeuedTimes hv hk.le]
    refine wrap64_of_mem ?_ ?_ <;> omega
  simp only [Service.successor, nameOf_requeuedTimes, hname, hnext]
  split
  · rw [LBSEntry.deadLettered, deadLetter]
    exact congrArg (fun w ↦ (_, Finmap.insert _ _ w)) (requeued_requeuedTimes k i.text _)
  · rw [requeued_requeuedTimes]
    rfl

end Chain

/-! ## What recoverers have added -/

/-- What was added in the place of an LBS entry, by which client and where. -/
structure Successor where
  /-- The entry it stands for. -/
  entry : StreamID
  /-- The client that added it. -/
  client : Nat
  /-- The stream it was added to. -/
  stream : String
  /-- Its fields. -/
  values : Values

/-- What an event adds in the place of the entry that its goroutine holds. -/
def History.succeeds {V : Service} (h : History) : Event V.machine → Option Successor
  | .op t c (.xadd stream _ values) ch _ _ =>
    if ch.effective then (h.held t).map fun i ↦ ⟨i, c, stream, values⟩ else none
  | _ => none

/-- The history and the successors after an event, the last one first. -/
def Service.chronicle (V : Service) (γ : History × List Successor) (P : Pool V.machine)
    (e : Event V.machine) : History × List Successor :=
  (γ.1.update V P e, (γ.1.succeeds e).toList ++ γ.2)

/-- A run of the service in which all commands succeed, with its successors. -/
def Service.Chronicle (V : Service) (P₀ : Pool V.machine) :
    Pool V.machine → History × List Successor → Prop :=
  Pool.Run V.chronicle (fun _ _ e ↦ Service.Public e ∧ NoFault e)
    (P₀, (.init V P₀.state.server, []))

/-- The entry of a recoverer that is past its `XADD`. -/
def Stage.placed : Stage → Option StreamID
  | .added e _ | .cleared e _ => StreamID.ofText? e.id
  | _ => none

/-- The entry of a recoverer that has yet to delete it. -/
def Stage.deleting : Stage → Option StreamID
  | .added e _ => StreamID.ofText? e.id
  | _ => none

/-- The ID that a `reQueue` call in progress was called with. -/
def Stage.reQueueing : Stage → Option String
  | .missing id => some id
  | .found e | .dead e _ | .won e _ | .added e _ | .gap e => some e.id
  | .idle | .cleared _ _ | .dropped _ | .lost | .skipped | .failed => none

/-- **What holds of successors in every run.** -/
structure Chronicled (V : Service) (P : Pool V.machine) (γ : History × List Successor) : Prop where
  /-- The service is sound. -/
  sound : Sound V P γ.1
  /-- Re-queues make lines of entries. -/
  lineal : Lineal V P γ.1
  /-- A successor is what its client adds for the entry. -/
  successor_eq : ∀ a ∈ γ.2, ∃ v, γ.1.added a.entry = some v ∧
    (a.stream, a.values) = V.successor a.client a.entry v
  /-- The entry it stands for is settled. -/
  settled : ∀ a ∈ γ.2, Settled V P.state.server a.entry
  /-- Nobody holds that entry. -/
  not_held : ∀ a ∈ γ.2, ∀ t c f, P.Live t c f → γ.1.held t ≠ some a.entry
  /-- No entry has two successors. -/
  nodup : (γ.2.map Successor.entry).Nodup
  /-- What was re-added has its successor in the LBS. -/
  parent : ∀ j l, γ.1.parent l = some j → ∃ a ∈ γ.2, a.entry = j ∧ a.stream = V.lbs
  /-- The entry is deleted, or the recoverer is about to do so. -/
  deleting : ∀ a ∈ γ.2, a.entry ∈ V.stream P.state.server →
    ∃ t < P.threads.length, (γ.1.session t).observe Stage.deleting = some a.entry
  /-- A recoverer that is past its `XADD` has added a successor. -/
  placed : ∀ t c f, P.Live t c f → ∀ i, (γ.1.session t).observe Stage.placed = some i →
    ∃ a ∈ γ.2, a.entry = i ∧ a.client = c

namespace Chronicled

variable {V : Service} {γ : History × List Successor} {P P' : Pool V.machine} {e : Event V.machine}

/-- A successor is an old one, or was just added by the goroutine that held the entry. -/
theorem mem_chronicle {a : Successor} (ha : a ∈ (V.chronicle γ P e).2) :
    a ∈ γ.2 ∨ γ.1.succeeds e = some a := by
  rcases List.mem_append.1 ha with ha | ha
  · exact .inr (Option.mem_toList.1 ha)
  · exact .inl ha

theorem mem_chronicle_of_mem {a : Successor} (ha : a ∈ γ.2) : a ∈ (V.chronicle γ P e).2 :=
  List.mem_append_right _ ha

/-- A successor is added by the goroutine that holds the entry. -/
theorem exists_of_succeeds {h : History} {a : Successor} (ha : h.succeeds e = some a) :
    ∃ t n ch r f, e = .op (M := V.machine) t a.client (.xadd a.stream n a.values) ch r f ∧
      ch.effective = true ∧ h.held t = some a.entry := by
  cases e with
  | op t c o ch r f =>
    cases o with
    | xadd stream n v =>
      simp only [History.succeeds] at ha
      split at ha
      · next hf =>
        obtain ⟨i, hi, rfl⟩ := Option.map_eq_some_iff.1 ha
        exact ⟨t, n, ch, r, f, rfl, hf, hi⟩
      · cases ha
    | _ => cases ha
  | _ => cases ha

/-- What is added in the place of the entry that a goroutine holds. -/
theorem successor_of_xadd {h : History} (hS : Sound V P h) {t c : Nat} {stream : String} {n : Int}
    {w : Values} {ch : Choice} {r : Except Err String} {f : Option Call} {i : StreamID}
    (hs : Pool.Step P (.op (M := V.machine) t c (.xadd stream n w) ch r f) P')
    (hi : h.held t = some i) :
    ∃ v, h.added i = some v ∧ (stream, w) = V.successor c i v := by
  obtain ⟨g, hl⟩ := hs.op_live
  have hkn := hS.knows _ _ _ hl
  obtain ⟨scope, stage, hq, hadd⟩ : (h.session t).Ok V.json (V.client c) (.xadd stream n w) :=
    hS.obeying.ok hs
  rw [History.held, hq] at hi
  rw [hq] at hkn
  cases stage with
  | won entry name =>
    obtain ⟨⟨k, hk, -, hv⟩, hname⟩ := hkn
    obtain rfl : k = i := Option.some.inj (hk.symm.trans hi)
    have hnameOf : V.nameOf entry.values = name := by
      ext m
      exact Service.nameOf_eq_some.trans (hname m).symm
    exact ⟨entry.values, hv, hadd.successor_eq k hnameOf⟩
  | _ => exact hadd.elim

/-- What a goroutine holds after an event has no successor. -/
theorem not_held_step (hC : Chronicled V P γ) (hs : Pool.Step P e P') {a : Successor}
    (ha : a ∈ (V.chronicle γ P e).2) {t c : Nat} {f : Call} (hl : P'.Live t c f) :
    (γ.1.update V P e).held t ≠ some a.entry := by
  intro hheld
  rcases mem_chronicle ha with ha | ha
  · rcases held_step hC.sound hs hl hheld with ⟨hl, hheld, -⟩ | hacks
    · exact hC.not_held a ha t c f hl hheld
    · exact (hC.settled a ha).2 hacks.pending
  · -- it was just added by whoever held the entry, who holds it no more
    obtain ⟨u, n, ch, r, g, rfl, -, hu⟩ := exists_of_succeeds ha
    obtain ⟨g', hlu⟩ := hs.op_live
    rcases held_step hC.sound hs hl hheld with ⟨hl, hheld, hne⟩ | hacks
    · obtain rfl := hC.lineal.held_unique t u c _ f g' _ hl hlu hheld hu
      obtain ⟨rfl, -⟩ := hl.unique hlu
      exact hne _ _ _ _ _ _ rfl
    · exact hacks

/-- A recoverer about to delete its entry stays so until it does. -/
theorem deleting_next {J : Json} {r : Client} {q : Session} {o : Op} {i : StreamID}
    (hok : q.Ok J r o) (hq : q.observe Stage.deleting = some i) (reply : o.Reply) :
    (q.next J r o reply).observe Stage.deleting = some i ∨
      ∃ s id, o = .xdel s id ∧ StreamID.ofText? id = some i := by
  cases q with
  | recover scope stage =>
    cases stage with
    | added e d =>
      rcases Session.recover_cases hok reply with ⟨-, heq⟩ | ⟨-, ⟨s, g, x, a, b, n, rfl⟩, -⟩ |
        ⟨s, a, rfl⟩ | ⟨key, rfl⟩ | ⟨s, g, a, rfl⟩ | ⟨s, n, v, rfl⟩ | ⟨s, a, rfl⟩ | ⟨s, rfl⟩
      · rw [heq]
        exact .inl hq
      · obtain ⟨-, -, -, hrest⟩ := hok
        exact hrest.elim
      · obtain ⟨-, -, _, _, heq, hrest, -⟩ := hok
        obtain ⟨-, rfl⟩ := Session.recover.inj heq
        exact hrest.elim
      · obtain ⟨_, _, _, heq, -⟩ := hok
        cases heq
      · obtain ⟨-, -, ⟨_, _, heq, hack⟩ | ⟨_, heq, -⟩⟩ := hok
        · obtain ⟨-, rfl⟩ := Session.recover.inj heq
          exact hack.elim
        · cases heq
      · obtain ⟨_, _, heq, hadd⟩ := hok
        obtain ⟨-, rfl⟩ := Session.recover.inj heq
        exact hadd.elim
      · obtain ⟨-, ⟨_, _, heq, hdel⟩ | ⟨_, heq, -⟩⟩ := hok
        · obtain ⟨-, rfl⟩ := Session.recover.inj heq
          obtain rfl : a = e.id := hdel
          exact .inr ⟨s, e.id, rfl, hq⟩
        · cases heq
      · obtain ⟨_, _, heq⟩ := hok
        cases heq
    | _ => cases hq
  | _ => cases hq

/-- Only an addition puts a recoverer past its `XADD`. -/
theorem placed_next {J : Json} {r : Client} {q : Session} {o : Op} {i : StreamID}
    (hok : q.Ok J r o) (hadd : ∀ s n v, o ≠ .xadd s n v) {reply : o.Reply}
    (hi : (q.next J r o reply).observe Stage.placed = some i) :
    q.observe Stage.placed = some i := by
  refine Session.observe_next hok ?_ ?_ ?_ ?_ ?_ (by simp [Stage.placed]) hi
  · rintro s j - id (_ | _ | _) hseen <;> cases hseen
  · rintro key - stage (_ | k) hseen
    · cases stage <;> cases hseen
    · cases stage with
      | found e =>
        rw [Stage.onExists] at hseen
        split at hseen
        · split at hseen <;> cases hseen
        · cases hseen
      | _ => cases hseen
  · rintro stage (_ | k) hseen
    · cases stage <;> cases hseen
    · by_cases hk : k = 0 <;> cases stage <;> simp [Stage.onAck, Stage.placed, hk] at hseen
  · rintro s n v ho
    exact absurd ho (hadd s n v)
  · intro stage hseen
    cases stage with
    | added e d => exact hseen
    | _ => cases hseen

/-- An addition that succeeds puts the recoverer that held the entry past it. -/
theorem onAdd_of_held {r : Client} {q : Session} {i : StreamID} {id : String}
    (hq : q.holding = some i) :
    (q.onStage (·.onAdd r (.ok id))).observe Stage.deleting = some i ∧
      (q.onStage (·.onAdd r (.ok id))).observe Stage.placed = some i := by
  obtain ⟨scope, e, name, rfl, hid⟩ := Session.exists_won_of_holding hq
  exact ⟨hid, hid⟩

/-- Nobody else puts an entry back that is deleted. -/
theorem not_mem_of_xdel {h : History} (hob : V.contract.Obeying P h.session) {t c : Nat}
    {s id : String} {ch : Choice} {r : Except Err Int} {f : Option Call} {i : StreamID}
    (hs : Pool.Step P (.op (M := V.machine) t c (.xdel s id) ch r f) P')
    (hf : ch.effective = true) (hid : StreamID.ofText? id = some i) :
    i ∉ V.stream P'.state.server := by
  obtain ⟨hlbs, -⟩ : (h.session t).Ok V.json (V.client c) (.xdel s id) := hob.ok hs
  rw [V.lbsName_eq] at hlbs
  subst hlbs
  have hx : World.exec c (.xdel V.lbs id) ch P.state = some (r, P'.state, f) := hs.op_exec
  obtain ⟨-, ⟨hf', -⟩ | ⟨-, hw, -⟩⟩ := World.exec_xdel hx
  · simp [hf] at hf'
  · rw [hw, World.server_setServer]
    rcases P.state.server.xdel_cases V.lbs id with ⟨j, hj, -, heq⟩ | ⟨hno, heq⟩
    · obtain rfl : i = j := Option.some.inj (hid.symm.trans hj)
      rw [heq, Service.stream_setStream]
      simp
    · rw [heq]
      exact hno i hid

/-- **The invariant is kept by every event** in which no command fails. -/
theorem step (hC : Chronicled V P γ) (hs : Pool.Step P e P') (hpub : Service.Public e)
    (hclean : NoFault e) : Chronicled V P' (V.chronicle γ P e) := by
  have hS := hC.sound
  have hgr := (change hS.obeying hs).grows
  have hle : ∀ a ∈ γ.2, a.entry ≤ (V.stream P.state.server).top :=
    fun a ha ↦ (hC.settled a ha).1.trans hS.delivered_le
  refine ⟨hS.step hs hpub, hC.lineal.step hS hs, ?_, ?_, fun a ha t c f hl ↦
    hC.not_held_step hs ha hl, ?_, ?_, ?_, ?_⟩
  · -- a successor is what its client adds
    intro a ha
    rcases mem_chronicle ha with ha | ha
    · obtain ⟨v, hv, heq⟩ := hC.successor_eq a ha
      exact ⟨v, (hgr.added_eq _ (hle a ha)).trans hv, heq⟩
    · obtain ⟨t, n, ch, r, f, rfl, -, hi⟩ := exists_of_succeeds ha
      obtain ⟨g, hl⟩ := hs.op_live
      obtain ⟨v, hv, heq⟩ := successor_of_xadd hS hs hi
      have hset := hS.held_settled hl hi
      exact ⟨v, (hgr.added_eq _ (hset.1.trans hS.delivered_le)).trans hv, heq⟩
  · -- its entry is settled
    intro a ha
    rcases mem_chronicle ha with ha | ha
    · exact (hC.settled a ha).mono hgr
    · obtain ⟨t, n, ch, r, f, rfl, -, hi⟩ := exists_of_succeeds ha
      obtain ⟨g, hl⟩ := hs.op_live
      exact (hS.held_settled hl hi).mono hgr
  · -- no entry has two
    show (((γ.1.succeeds e).toList ++ γ.2).map Successor.entry).Nodup
    cases ha : γ.1.succeeds e with
    | none => exact hC.nodup
    | some a =>
      obtain ⟨t, n, ch, r, f, rfl, -, hi⟩ := exists_of_succeeds ha
      obtain ⟨g, hl⟩ := hs.op_live
      refine List.nodup_cons.2 ⟨?_, hC.nodup⟩
      intro hmem
      obtain ⟨b, hb, hba⟩ := List.mem_map.1 hmem
      exact hC.not_held b hb t _ g hl (hba ▸ hi)
  · -- re-added entries have theirs in the LBS
    intro j l hp
    rcases History.parent_step hp with hp | hr
    · obtain ⟨a, ha, hrest⟩ := hC.parent j l hp
      exact ⟨a, mem_chronicle_of_mem ha, hrest⟩
    · obtain ⟨t, c, n, v, ch, r, f, rfl, hf, -, hi⟩ := History.exists_of_reAdded hr
      refine ⟨⟨j, c, V.lbs, v⟩, List.mem_append_left _ ?_, rfl, rfl⟩
      simp [History.succeeds, hf, hi]
  · -- the recoverer is about to delete the entry
    intro a ha hin
    rcases mem_chronicle ha with ha | ha
    · obtain ⟨t, ht, hdel⟩ := hC.deleting a ha (hgr.mem_stream (hle a ha) hin)
      refine ⟨t, ht.trans_le hs.length_le, ?_⟩
      by_cases hm : e.mover = some t
      swap
      · rw [← hdel]
        exact congrArg _ (History.session_of_mover_ne ht hm)
      cases e with
      | op t' c o ch r f =>
        obtain rfl : t' = t := Option.some.inj hm
        have hok : (γ.1.session t').Ok V.json (V.client c) o := hS.obeying.ok hs
        have hnext : (γ.1.update V P (.op t' c o ch r f)).session t' =
            (γ.1.session t').next V.json (V.client c) o r := History.session_op ht
        show ((γ.1.update V P (.op t' c o ch r f)).session t').observe Stage.deleting = _
        rw [hnext]
        refine (deleting_next hok hdel r).resolve_right ?_
        rintro ⟨s, id, rfl, hid⟩
        have hf : ch.effective = true := by
          rw [Choice.effective, show ch.fault = .none from hclean]
        exact not_mem_of_xdel hS.obeying hs hf hid hin
      | _ => cases hm
    · obtain ⟨t, n, ch, r, f, rfl, -, hi⟩ := exists_of_succeeds ha
      obtain ⟨g, hl⟩ := hs.op_live
      obtain ⟨hr, -⟩ := World.exec_xadd_clean (c := a.client) hclean hs.op_exec
      refine ⟨t, hl.lt_length.trans_le hs.length_le, ?_⟩
      have hnext : (γ.1.update V P (.op t a.client (.xadd a.stream n a.values) ch r f)).session t =
          (γ.1.session t).next V.json (V.client a.client) (.xadd a.stream n a.values) r :=
        History.session_op hl.lt_length
      show ((γ.1.update V P _).session t).observe Stage.deleting = _
      rw [hnext, hr]
      exact (onAdd_of_held hi).1
  · -- whoever is past its `XADD` has added a successor
    refine hS.obeying.each (K := V.contract) (I := fun c _ q ↦ ∀ i,
      q.observe Stage.placed = some i → ∃ a ∈ γ.2, a.entry = i ∧ a.client = c)
      (Q := fun c _ q ↦ ∀ i, q.observe Stage.placed = some i →
        ∃ a ∈ (V.chronicle γ P e).2, a.entry = i ∧ a.client = c) hs hC.placed ?_ ?_ ?_
    · intro t c f _ _ _ hq i hi
      obtain ⟨a, ha, hrest⟩ := hq i hi
      exact ⟨a, mem_chronicle_of_mem ha, hrest⟩
    · rintro t c f o ch r g rfl hl hok hx hq i hi
      by_cases hadd : ∃ s n v, o = .xadd s n v
      · obtain ⟨s, n, v, rfl⟩ := hadd
        obtain ⟨hr, -⟩ := World.exec_xadd_clean (c := c) hclean hx
        obtain ⟨j, hj, -⟩ := exists_held_of_xadd hS hs
        subst hr
        obtain rfl : j = i := Option.some.inj ((onAdd_of_held hj).2.symm.trans hi)
        refine ⟨⟨j, c, s, v⟩, List.mem_append_left _ ?_, rfl, rfl⟩
        have hf : ch.effective = true := by
          rw [Choice.effective, show ch.fault = .none from hclean]
        simp [History.succeeds, hf, hj]
      · obtain ⟨a, ha, hrest⟩ := hq i (placed_next hok (fun s n v h ↦ hadd ⟨s, n, v, h⟩) hi)
        exact ⟨a, mem_chronicle_of_mem ha, hrest⟩
    · intro c f _ i hi
      cases f <;> cases hi

theorem init (h₀ : Fresh V P) : Chronicled V P (.init V P.state.server, []) where
  sound := h₀.sound
  lineal := .init h₀
  successor_eq a ha := absurd ha List.not_mem_nil
  settled a ha := absurd ha List.not_mem_nil
  not_held a ha := absurd ha List.not_mem_nil
  nodup := List.nodup_nil
  parent j l hp := absurd hp (by simp [History.init])
  deleting a ha := absurd ha List.not_mem_nil
  placed _ _ _ hl := absurd hl h₀.not_live

theorem of_run {P₀ : Pool V.machine} (h₀ : Fresh V P₀) (hr : V.Chronicle P₀ P γ) :
    Chronicled V P γ := by
  refine Pool.Run.invariant (I := Chronicled V) (init h₀) ?_ hr
  rintro P γ e P' hC ⟨hpub, hclean⟩ hs
  exact hC.step hs hpub hclean

end Chronicled

/-! ## The chain of a task -/

/-- A successor of the entry after `k` re-queues, as the retries of its client have it: the
next entry of the LBS, or the copy in the client's DLQ. -/
def Routed (V : Service) (v : Values) (k : Nat) (a : Successor) : Prop :=
  ((k + 1 : Nat) ≤ (V.client a.client).recoveryConfig.maxRetries ∧ a.stream = V.lbs ∧
      a.values = requeuedTimes v (k + 1)) ∨
    ((V.client a.client).recoveryConfig.maxRetries < (k + 1 : Nat) ∧
      a.stream = (V.client a.client).recoveryConfig.dlqStream ∧ a.values = deadLetter v (k + 1))

/-- **The entry `j` after `k` re-queues** of one with fields `v` for the data stream
`name`. -/
structure ChainEntry (V : Service) (P : Pool V.machine) (γ : History × List Successor) (v : Values)
    (name : String) (k : Nat) (j : StreamID) : Prop where
  /-- Its fields are those of the first, and the retry count. -/
  added_eq : γ.1.added j = some (requeuedTimes v k)
  /-- The payload is kept. -/
  payload_eq : (requeuedTimes v k).lookup Configs.lbsInput = v.lookup Configs.lbsInput
  /-- So is the data stream. -/
  nameOf_eq : V.nameOf (requeuedTimes v k) = some name
  /-- There were no more re-queues than the largest `MaxRetries`. -/
  retries_le : ∀ m : Int, 0 ≤ m → (∀ c, (V.client c).recoveryConfig.maxRetries ≤ m) → k ≤ m
  /-- It has at most one successor. -/
  count_le : (γ.2.map Successor.entry).count j ≤ 1
  /-- The successor is where the retries of its client have it. -/
  routed : ∀ a ∈ γ.2, a.entry = j → Routed V v k a
  /-- A client that took the entry and is past its `XADD` has added one. -/
  placed : ∀ t c f, P.Live t c f → (γ.1.session t).observe Stage.placed = some j →
    ∃ a ∈ γ.2, a.entry = j ∧ a.client = c

section

variable {V : Service} {P : Pool V.machine} {γ : History × List Successor} {i j l : StreamID}
  {v : Values} {name : String} {k m : Nat}

/-- The fields along a chain, and who made its last re-queue. -/
theorem History.Chain.added_eq {h : History}
    (hM : ∀ c, (V.client c).recoveryConfig.maxRetries < maxInt)
    (hL : Lineal V P h) (hv : h.added i = some v) (hretry : v.lookup Configs.retryCountField = none)
    (hc : h.Chain i k j) : h.added j = some (requeuedTimes v k) ∧
      (k = 0 ∨ ∃ c, k ≤ (V.client c).recoveryConfig.maxRetries) := by
  induction hc with
  | root => exact ⟨hv, .inl rfl⟩
  | @next k j l _ hp ih =>
    obtain ⟨hj, hlast⟩ := ih
    have hk : (k : Int) < maxInt := by
      rcases hlast with rfl | ⟨c, hc⟩
      · decide
      · exact hc.trans_lt (hM c)
    obtain ⟨c, u, w, hu, hw, hreq⟩ := hL.requeues j l hp
    obtain rfl : requeuedTimes v k = u := Option.some.inj (hj.symm.trans hu)
    have hnext : wrap64 ((LBSEntry.mk "" (requeuedTimes v k)).retryCount + 1) = (k + 1 : Nat) := by
      rw [retryCount_requeuedTimes hretry hk.le]
      refine wrap64_of_mem ?_ ?_ <;> omega
    refine ⟨?_, .inr ⟨c, hnext ▸ hreq.retries_le⟩⟩
    rw [hw, hreq.values_eq, hnext, requeued_requeuedTimes]
    rfl

theorem Chronicled.chainEntry (hC : Chronicled V P γ)
    (hM : ∀ c, (V.client c).recoveryConfig.maxRetries < maxInt) (hv : γ.1.added i = some v)
    (hname : V.nameOf v = some name) (hretry : v.lookup Configs.retryCountField = none)
    (hc : γ.1.Chain i k j) : ChainEntry V P γ v name k j := by
  obtain ⟨hadded, hlast⟩ := hc.added_eq hM hC.lineal hv hretry
  have hk : (k : Int) < maxInt := by
    rcases hlast with rfl | ⟨c, hc⟩
    · decide
    · exact hc.trans_lt (hM c)
  refine ⟨hadded, lookup_requeuedTimes (by decide) k, ?_, ?_, ?_, ?_, ?_⟩
  · rw [nameOf_requeuedTimes, hname]
  · intro m hm hmax
    rcases hlast with rfl | ⟨c, hc⟩
    · exact hm
    · exact hc.trans (hmax c)
  · exact List.nodup_iff_count_le_one.1 hC.nodup j
  · rintro a ha rfl
    obtain ⟨w, hw, heq⟩ := hC.successor_eq a ha
    obtain rfl : requeuedTimes v k = w := Option.some.inj (hadded.symm.trans hw)
    rw [successor_requeuedTimes hname hretry hk] at heq
    split at heq
    · next hlt =>
      obtain ⟨hstream, hvalues⟩ := Prod.mk.inj heq
      exact .inr ⟨hlt, hstream, hvalues⟩
    · next hle =>
      obtain ⟨hstream, hvalues⟩ := Prod.mk.inj heq
      exact .inl ⟨not_lt.1 hle, hstream, hvalues⟩
  · intro t c f hl hplaced
    exact hC.placed t c f hl j hplaced

/-- Every entry of a chain that ended outside the LBS has a successor. -/
theorem Chronicled.exists_successor (hC : Chronicled V P γ) {a : Successor} (ha : a ∈ γ.2)
    (hdlq : a.stream ≠ V.lbs) (hc : γ.1.Chain i k a.entry) (hl : γ.1.Chain i m l) :
    ∃ b ∈ γ.2, b.entry = l := by
  have hchild : ∀ {x y}, γ.1.parent y = some x → ∃ b ∈ γ.2, b.entry = x ∧ b.stream = V.lbs :=
    fun hp ↦ hC.parent _ _ hp
  rcases lt_trichotomy m k with hlt | rfl | hgt
  · obtain ⟨x, y, hx, hp⟩ := hc.exists_child hlt
    obtain rfl := hl.unique hC.lineal.parent_unique hx
    obtain ⟨b, hb, hbl, -⟩ := hchild hp
    exact ⟨b, hb, hbl⟩
  · exact ⟨a, ha, hc.unique hC.lineal.parent_unique hl⟩
  · -- the chain cannot go on after its end, since an entry has one successor
    obtain ⟨x, y, hx, hp⟩ := hl.exists_child hgt
    obtain rfl := hx.unique hC.lineal.parent_unique hc
    obtain ⟨b, hb, hba, hlbs⟩ := hchild hp
    obtain rfl : b = a := List.inj_on_of_nodup_map hC.nodup hb ha hba
    exact absurd hlbs hdlq

/-- What has a successor is off the pending list, and deleted unless its recoverer is at
work. -/
theorem Chronicled.not_mem (hC : Chronicled V P γ) {b : Successor} (hb : b ∈ γ.2)
    (hdone : ∀ t < P.threads.length, ∀ id, (γ.1.session t).observe Stage.reQueueing = some id →
      StreamID.ofText? id ≠ some b.entry) :
    b.entry ∉ V.pending P.state.server ∧ b.entry ∉ V.stream P.state.server := by
  refine ⟨(hC.settled b hb).2, fun hin ↦ ?_⟩
  obtain ⟨t, ht, hdel⟩ := hC.deleting b hb hin
  have hq := hdone t ht
  revert hq hdel
  generalize γ.1.session t = q
  intro hdel hq
  cases q with
  | recover scope stage =>
    cases stage with
    | added e d => exact hq e.id rfl hdel
    | _ => cases hdel
  | _ => cases hdel

end

/-- **Retries and dead letters.**  In every run in which no command fails, of clients whose
`MaxRetries` are less than the largest `int` and whose DLQs are not the LBS, every entry of the
chain of re-queues from an entry without a retry count is as `ChainEntry` says.  Once the chain
has ended in a DLQ and no `reQueue` call is at work on one of its entries, none of them is pending
or in the LBS. -/
theorem requeue_chain (F : Fleet)
    (hdlq : ∀ c, (F.client c).recoveryConfig.dlqStream ≠ F.name ++ Configs.inputSuffix)
    (hM : ∀ c, (F.client c).recoveryConfig.maxRetries < maxInt)
    (P₀ P : Pool (Service.mk F hdlq).machine) (γ : History × List Successor)
    (h₀ : Fresh ⟨F, hdlq⟩ P₀) (hr : (Service.mk F hdlq).Chronicle P₀ P γ) (i : StreamID)
    (v : Values) (name : String) (hv : γ.1.added i = some v)
    (hname : (Service.mk F hdlq).nameOf v = some name)
    (hretry : v.lookup Configs.retryCountField = none) :
    (∀ k j, γ.1.Chain i k j → ChainEntry ⟨F, hdlq⟩ P γ v name k j) ∧
      ∀ k, ∀ a ∈ γ.2, γ.1.Chain i k a.entry → a.stream ≠ (Service.mk F hdlq).lbs →
        (∀ t < P.threads.length, ∀ id, (γ.1.session t).observe Stage.reQueueing = some id →
          ∀ l, StreamID.ofText? id = some l → ∀ m, ¬ γ.1.Chain i m l) →
        ∀ m l, γ.1.Chain i m l → l ∉ (Service.mk F hdlq).pending P.state.server ∧
          l ∉ (Service.mk F hdlq).stream P.state.server := by
  have hC := Chronicled.of_run h₀ hr
  refine ⟨fun k j hc ↦ hC.chainEntry hM hv hname hretry hc, ?_⟩
  intro k a ha hc hend hdone m l hl
  obtain ⟨b, hb, rfl⟩ := hC.exists_successor ha hend hc hl
  exact hC.not_mem hb fun t ht id hid hid' ↦ hdone t ht id hid b.entry hid' m hl

namespace Demo

/-- Client `a` is handed the entry `k-0` and crashes; client `b` claims it, and what it adds
gets the ID `(k+1)-0`. -/
def deliverAndClaim (k : Nat) : List (Pool.Label service.machine) :=
  [.start 0 (.readLBSStream 0 0)] ++ ops (2 * k - 2) 2 ++ [.crash 0] ++
    [.start 1 (.claim ⟨"orders", (StreamID.mk k 0).text⟩)] ++ ops (2 * k - 1) 3 ++
    [.op (2 * k - 1) (.plain ⟨k + 1, 0⟩)] ++ ops (2 * k - 1) 2

/-- A task that is re-queued three times and then routed to the DLQ. -/
def deadLettered : Pool service.machine × History × List Successor :=
  (Pool.schedule service.chronicle (fun _ _ e ↦ Service.Public e ∧ NoFault e)
    (produce 1 "orders" :: [1, 2, 3, 4].flatMap deliverAndClaim)
    (idle, (.init service idle.state.server, []))).get (by decide +kernel)

/-- The chain of its entries. -/
theorem chain_deadLettered : deadLettered.2.1.Chain ⟨1, 0⟩ 3 ⟨4, 0⟩ := by
  have hp : deadLettered.2.1.parent ⟨2, 0⟩ = some ⟨1, 0⟩ ∧
      deadLettered.2.1.parent ⟨3, 0⟩ = some ⟨2, 0⟩ ∧
      deadLettered.2.1.parent ⟨4, 0⟩ = some ⟨3, 0⟩ := by decide +kernel
  exact ((History.Chain.root.next hp.1).next hp.2.1).next hp.2.2

end Demo

/-- After three re-queues and the copy to the DLQ nothing of the task is left. -/
theorem requeue_chain_deadLettered :
    Demo.deadLettered.2.1.Chain ⟨1, 0⟩ 3 ⟨4, 0⟩ ∧ ∀ m l,
      Demo.deadLettered.2.1.Chain ⟨1, 0⟩ m l →
        l ∉ Demo.service.pending Demo.deadLettered.1.state.server ∧
          l ∉ Demo.service.stream Demo.deadLettered.1.state.server := by
  have hlast : Demo.deadLettered.2.2.any (fun a ↦ a.entry == ⟨4, 0⟩ && a.stream != "demo-input") =
      true := by decide +kernel
  obtain ⟨a, ha, htest⟩ := List.any_eq_true.1 hlast
  obtain ⟨hentry, hstream⟩ := Bool.and_eq_true_iff.1 htest
  have hidle : ∀ t < Demo.deadLettered.1.threads.length,
      (Demo.deadLettered.2.1.session t).observe Stage.reQueueing = none := by decide +kernel
  refine ⟨Demo.chain_deadLettered, ?_⟩
  refine (requeue_chain Demo.service.toFleet Demo.service.dlqStream_ne_lbs (fun c ↦ ?_) Demo.idle
    Demo.deadLettered.1 Demo.deadLettered.2 Demo.fresh_idle (Pool.run_of_isSome _) ⟨1, 0⟩
    (Demo.fields "orders") "orders" ?_ ?_ ?_).2 3 a ha ?_ ?_ ?_
  · show (3 : Int) < maxInt
    decide
  · decide +kernel
  · decide
  · decide
  · rw [beq_iff_eq.1 hentry]
    exact Demo.chain_deadLettered
  · exact bne_iff_ne.1 hstream
  · intro t ht id hid
    simp [hidle t ht] at hid

end RedisStreamClient.Impl
