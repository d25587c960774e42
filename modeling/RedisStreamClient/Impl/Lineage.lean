import RedisStreamClient.Impl.Conservation
import RedisStreamClient.Lib.Lineage

/-!
# The entries of a task

A re-queue replaces an LBS entry by its successor: the same fields with the retry count
raised by one.  `Lineal` is what holds of that relation in every run, whatever commands
fail or lose their reply: the successor is later, the entry it replaces is settled for
good, and no entry has two successors, because only the recoverer whose `XACK` took it
off the pending list adds one, and adds it once.
-/

namespace RedisStreamClient.Impl

open RedisStreamClient.Lib RedisStreamClient.Errs RedisStreamClient.Notifs
open RedisStreamClient.Redis

section Steps

variable {V : Service} {h : History} {P P' : Pool V.machine} {e : Event V.machine}

/-- **What a goroutine holds it held before, or has just acknowledged.** -/
theorem held_step (hS : Sound V P h) (hs : Pool.Step P e P') {t c : Nat} {f : Call}
    {i : StreamID} (hl : P'.Live t c f) (hi : (h.update V P e).held t = some i) :
    (P.Live t c f ∧ h.held t = some i ∧
      ∀ s n v ch r g, e ≠ .op (M := V.machine) t c (.xadd s n v) ch r g) ∨
      History.Acks V P t i e := by
  rcases hs.live_iff.1 hl with ⟨hl, -⟩ | ⟨rfl, hst⟩
  swap
  · rw [History.held, History.session_starts hst, Session.holding_start] at hi
    simp at hi
  by_cases hm : e.mover = some t
  swap
  · rw [History.held, History.session_of_mover_ne hl.lt_length hm] at hi
    refine .inl ⟨hl, hi, ?_⟩
    rintro s n v ch r g rfl
    exact hm rfl
  cases e with
  | op t' c' o ch r g =>
    obtain rfl : t' = t := Option.some.inj hm
    obtain ⟨f', hl'⟩ := hs.op_live
    obtain ⟨rfl, rfl⟩ := hl.unique hl'
    have hok : (h.session t').Ok V.json (V.client c) o := hS.obeying.ok hs
    have hnext : (h.update V P (.op t' c o ch r g)).session t' =
        (h.session t').next V.json (V.client c) o r := History.session_op hl.lt_length
    rw [History.held, hnext] at hi
    by_cases hack : ∃ s g i, o = .xack s g i
    · obtain ⟨s, g', id, rfl⟩ := hack
      right
      have hid : ∀ j, History.Acks V P t' j (.op t' c (.xack s g' id) ch r g) →
          StreamID.ofText? id = some j := fun j hj ↦ hj.2.2.2.2.1
      by_cases hj : ∃ j, History.Acks V P t' j (.op t' c (.xack s g' id) ch r g)
      · obtain ⟨j, hj⟩ := hj
        obtain rfl : j = i := by
          have := Session.holding_onAck_eq hok hi
          exact Option.some.inj ((hid j hj).symm.trans this)
        exact hj
      · have hzero := fun k hk ↦ reply_of_not_acks (k := k) hS hs (not_exists.1 hj) hk
        have hnone := Session.holding_onAck hok hzero
        exact absurd (hnone.symm.trans hi) (by simp)
    by_cases hadd : ∃ s n v, o = .xadd s n v
    · obtain ⟨s, n, v, rfl⟩ := hadd
      obtain ⟨scope, stage, hq, -⟩ := hok
      have hnone := Session.holding_onAdd (r := V.client c) ⟨scope, stage, hq⟩ r
      exact absurd (hnone.symm.trans hi) (by simp)
    · rw [Session.holding_next (V.dlqStream_ne_empty c) hok (fun s g i h ↦ hack ⟨s, g, i, h⟩)
        fun s n v h ↦ hadd ⟨s, n, v, h⟩] at hi
      refine .inl ⟨hl, hi, ?_⟩
      rintro s n v ch' r' g' heq
      obtain ⟨-, -, rfl, -⟩ := Event.op.inj heq
      exact hadd ⟨s, n, v, rfl⟩
  | _ => simp [Event.mover] at hm

/-- An entry is added again by the goroutine that holds the one it replaces. -/
theorem History.exists_of_reAdded {i j : StreamID} (hr : h.reAdded V e = some (i, j)) :
    ∃ t c n v ch r f, e = .op (M := V.machine) t c (.xadd V.lbs n v) ch r f ∧
      ch.effective = true ∧ ch.newID = j ∧ h.held t = some i := by
  cases e with
  | op t c o ch r f =>
    cases o with
    | xadd stream n v =>
      simp only [History.reAdded] at hr
      split at hr
      · next hc =>
        obtain ⟨rfl, hf⟩ := hc
        obtain ⟨k, hk, heq⟩ := Option.map_eq_some_iff.1 hr
        obtain ⟨rfl, rfl⟩ := Prod.mk.inj heq
        exact ⟨t, c, n, v, ch, r, f, rfl, hf, rfl, hk⟩
      · simp at hr
    | _ => simp [History.reAdded] at hr
  | _ => simp [History.reAdded] at hr

/-- A successor is an old one, or was just added. -/
theorem History.parent_step {i j : StreamID} (hp : (h.update V P e).parent j = some i) :
    h.parent j = some i ∨ h.reAdded V e = some (i, j) := by
  cases hr : h.reAdded V e with
  | none => exact .inl (by simpa [History.update, hr] using hp)
  | some d =>
    obtain ⟨k, l⟩ := d
    simp only [History.update, hr] at hp
    by_cases hj : j = l
    · subst hj
      rw [Function.update_self] at hp
      obtain rfl := Option.some.inj hp
      exact .inr rfl
    · rw [Function.update_of_ne hj] at hp
      exact .inl hp

end Steps

/-- The successor that a re-queue by client `c` adds for an entry with fields `v`. -/
structure Requeues (V : Service) (c : Nat) (v w : Values) : Prop where
  /-- The entry can be parsed. -/
  parses : ∃ name, (LBSEntry.mk "" v).dataStreamName V.json = .ok name
  /-- Its retries are not used up. -/
  retries_le : wrap64 ((LBSEntry.mk "" v).retryCount + 1) ≤ (V.client c).recoveryConfig.maxRetries
  /-- The successor has its fields, with the retry count raised. -/
  values_eq : w = (LBSEntry.mk "" v).requeued (wrap64 ((LBSEntry.mk "" v).retryCount + 1))

/-- **What holds of successors in every run.** -/
structure Lineal (V : Service) (P : Pool V.machine) (h : History) : Prop where
  /-- They were added by a re-queue. -/
  requeues : ∀ i j, h.parent j = some i →
    ∃ c v w, h.added i = some v ∧ h.added j = some w ∧ Requeues V c v w
  /-- They are later. -/
  parent_lt : ∀ i j, h.parent j = some i → i < j ∧ j ≤ (V.stream P.state.server).top
  /-- What they replace is settled. -/
  settled : ∀ i j, h.parent j = some i → Settled V P.state.server i
  /-- No entry has two. -/
  parent_unique : ∀ i j k, h.parent j = some i → h.parent k = some i → j = k
  /-- An entry is held once. -/
  held_unique : ∀ t u c d f g i, P.Live t c f → P.Live u d g → h.held t = some i →
    h.held u = some i → t = u
  /-- A held entry has no successor. -/
  held_free : ∀ t c f i j, P.Live t c f → h.held t = some i → h.parent j ≠ some i

namespace Lineal

variable {V : Service} {h : History} {P P' : Pool V.machine} {e : Event V.machine}

/-- What a recoverer adds to the LBS. -/
theorem requeues_of_xadd (hS : Sound V P h) {t c : Nat} {n : Int} {w : Values} {ch : Choice}
    {r : Except Err String} {f : Option Call} {i : StreamID}
    (hs : Pool.Step P (.op (M := V.machine) t c (.xadd V.lbs n w) ch r f) P')
    (hi : h.held t = some i) : ∃ v, h.added i = some v ∧ Requeues V c v w := by
  obtain ⟨g, hl⟩ := hs.op_live
  have hkn := hS.knows _ _ _ hl
  obtain ⟨scope, stage, hq, hadd⟩ : (h.session t).Ok V.json (V.client c) (.xadd V.lbs n w) :=
    hS.obeying.ok hs
  rw [History.held, hq] at hi
  rw [hq] at hkn
  cases stage with
  | won entry name =>
    obtain ⟨⟨k, hk, -, hv⟩, hname⟩ := hkn
    obtain rfl : k = i := Option.some.inj (hk.symm.trans hi)
    cases name with
    | none => exact absurd hadd.2.1.symm (V.dlqStream_ne_lbs c)
    | some name =>
      rcases hadd with ⟨hle, -, -, hw⟩ | ⟨-, -, hdlq, -⟩
      · exact ⟨entry.values, hv, ⟨name, (hname name).1 rfl⟩, hle, hw⟩
      · exact absurd hdlq.symm (V.dlqStream_ne_lbs c)
  | _ => exact hadd.elim

/-- The successor that was just added is the last entry of the LBS. -/
theorem new_child (hS : Sound V P h) (hs : Pool.Step P e P') {i j : StreamID}
    (hr : h.reAdded V e = some (i, j)) :
    (V.stream P.state.server).top < j ∧ (V.stream P'.state.server).top = j ∧
      ∃ t c n v ch r f, e = .op (M := V.machine) t c (.xadd V.lbs n v) ch r f ∧
        h.held t = some i ∧ (h.update V P e).added j = some v := by
  obtain ⟨t, c, n, v, ch, r, f, rfl, hf, rfl, hi⟩ := History.exists_of_reAdded hr
  have hadded : h.entryAdded V (.op (M := V.machine) t c (.xadd V.lbs n v) ch r f) =
      some (ch.newID, v, (h.held t).bind h.origin) := if_pos ⟨rfl, hf⟩
  cases change hS.obeying hs with
  | push k w x hlt hst hp hadd =>
    obtain ⟨rfl, rfl, -⟩ : ch.newID = k ∧ v = w ∧ (h.held t).bind h.origin = x := by
      simpa [hadded] using hadd
    refine ⟨hlt, by rw [hst, Log.top_push], t, c, n, v, ch, r, f, rfl, hi, ?_⟩
    simp [History.update, hadded]
  | same _ _ hadd => simp [hadded] at hadd
  | del _ _ _ _ _ _ _ hadd => simp [hadded] at hadd
  | ack _ _ _ _ _ hadd => simp [hadded] at hadd
  | deliver _ _ _ _ hadd => simp [hadded] at hadd

/-- The invariant is kept by every event. -/
theorem step (hS : Sound V P h) (hL : Lineal V P h) (hs : Pool.Step P e P') :
    Lineal V P' (h.update V P e) := by
  have hgr := (change hS.obeying hs).grows
  have hheld : ∀ {t c f i}, P.Live t c f → h.held t = some i → i ≤ (V.stream P.state.server).top :=
    fun hl hi ↦ (hS.held_settled hl hi).1.trans hS.delivered_le
  refine ⟨?_, ?_, ?_, ?_, ?_, ?_⟩
  · intro i j hp
    rcases History.parent_step hp with hp | hr
    · obtain ⟨hlt, hle⟩ := hL.parent_lt i j hp
      rw [hgr.added_eq i (hlt.le.trans hle), hgr.added_eq j hle]
      exact hL.requeues i j hp
    · obtain ⟨-, -, t, c, n, w, ch, r, f, rfl, hi, hw⟩ := new_child hS hs hr
      obtain ⟨f', hl⟩ := hs.op_live
      obtain ⟨v, hv, hreq⟩ := requeues_of_xadd hS hs hi
      exact ⟨c, v, w, by rw [hgr.added_eq i (hheld hl hi), hv], hw, hreq⟩
  · intro i j hp
    rcases History.parent_step hp with hp | hr
    · obtain ⟨hlt, hle⟩ := hL.parent_lt i j hp
      exact ⟨hlt, hle.trans hgr.top_le⟩
    · obtain ⟨hlt, htop, t, c, n, w, ch, r, f, rfl, hi, -⟩ := new_child hS hs hr
      obtain ⟨f', hl⟩ := hs.op_live
      exact ⟨(hheld hl hi).trans_lt hlt, htop.ge⟩
  · intro i j hp
    rcases History.parent_step hp with hp | hr
    · exact (hL.settled i j hp).mono hgr
    · obtain ⟨-, -, t, c, n, w, ch, r, f, rfl, hi, -⟩ := new_child hS hs hr
      obtain ⟨f', hl⟩ := hs.op_live
      exact (hS.held_settled hl hi).mono hgr
  · intro i j k hj hk
    have hold : ∀ {j k}, h.parent j = some i → h.reAdded V e ≠ some (i, k) := by
      intro j k hp hr
      obtain ⟨-, -, t, c, n, w, ch, r, f, rfl, hi, -⟩ := new_child hS hs hr
      obtain ⟨f', hl⟩ := hs.op_live
      exact hL.held_free t c f' i j hl hi hp
    rcases History.parent_step hj with hj | hj <;> rcases History.parent_step hk with hk | hk
    · exact hL.parent_unique i j k hj hk
    · exact absurd hk (hold hj)
    · exact absurd hj (hold hk)
    · exact (Prod.mk.inj (Option.some.inj (hj.symm.trans hk))).2
  · intro t u c d f g i ht hu hi hj
    rcases held_step hS hs ht hi with ⟨ht, hi, -⟩ | hi <;>
      rcases held_step hS hs hu hj with ⟨hu, hj, -⟩ | hj
    · exact hL.held_unique t u c d f g i ht hu hi hj
    · exact absurd hj.pending (hS.held_settled ht hi).2
    · exact absurd hi.pending (hS.held_settled hu hj).2
    · exact (History.acks_unique hj hi).1
  · intro t c f i j hl hi hp
    rcases History.parent_step hp with hp | hr
    · rcases held_step hS hs hl hi with ⟨hl, hi, -⟩ | hi
      · exact hL.held_free t c f i j hl hi hp
      · exact (hL.settled i j hp).2 hi.pending
    · -- the entry was just added again, by the goroutine that held it
      obtain ⟨-, -, u, d, n, w, ch, r, f, rfl, hj, -⟩ := new_child hS hs hr
      obtain ⟨g, hu⟩ := hs.op_live
      rcases held_step hS hs hl hi with ⟨hl, hi, hne⟩ | hi
      · obtain rfl := hL.held_unique t u c d _ g i hl hu hi hj
        obtain ⟨rfl, -⟩ := hl.unique hu
        exact hne _ _ _ _ _ _ rfl
      · exact hi

theorem init (h₀ : Fresh V P) : Lineal V P (.init V P.state.server) where
  requeues _ _ hp := absurd hp (by simp [History.init])
  parent_lt _ _ hp := absurd hp (by simp [History.init])
  settled _ _ hp := absurd hp (by simp [History.init])
  parent_unique _ _ _ hp := absurd hp (by simp [History.init])
  held_unique _ _ _ _ _ _ _ hl := absurd hl h₀.not_live
  held_free _ _ _ _ _ hl := absurd hl h₀.not_live

end Lineal

/-! ## The entries of a data stream -/

/-- The data stream that the fields of an entry name. -/
def Service.nameOf (V : Service) (v : Values) : Option String :=
  ((LBSEntry.mk "" v).dataStreamName V.json).toOption

theorem Service.nameOf_eq_some {V : Service} {v : Values} {name : String} :
    V.nameOf v = some name ↔ (LBSEntry.mk "" v).dataStreamName V.json = .ok name := by
  rw [Service.nameOf]
  cases (LBSEntry.mk "" v).dataStreamName V.json <;> simp [Except.toOption]

theorem Requeues.nameOf_eq {V : Service} {c : Nat} {v w : Values} (h : Requeues V c v w) :
    V.nameOf w = V.nameOf v := by
  rw [h.values_eq, Service.nameOf, LBSEntry.dataStreamName_requeued, Service.nameOf]

/-- What client `c` adds for the entry `i` with fields `v` that it has acknowledged, and
where: the successor to the LBS while the retries last, else a copy to its DLQ. -/
def Service.successor (V : Service) (c : Nat) (i : StreamID) (v : Values) : String × Values :=
  let r := V.client c
  let entry : LBSEntry := ⟨i.text, v⟩
  let next := wrap64 (entry.retryCount + 1)
  match V.nameOf v with
  | none => (r.recoveryConfig.dlqStream,
      entry.deadLettered entry.retryCount Configs.dlqReasonUnparseable)
  | some _ =>
    if r.recoveryConfig.maxRetries < next then
      (r.recoveryConfig.dlqStream, entry.deadLettered next Configs.dlqReasonMaxRetries)
    else (V.lbs, entry.requeued next)

/-- What a recoverer may add for the entry that it has acknowledged is the successor. -/
theorem Stage.OkAdd.successor_eq {V : Service} {c : Nat} {e : LBSEntry} {name : Option String}
    {stream : String} {maxLen : Int} {values : Values} (i : StreamID)
    (h : Stage.OkAdd (V.client c) stream maxLen values (.won e name))
    (hname : V.nameOf e.values = name) : (stream, values) = V.successor c i e.values := by
  unfold Service.successor
  subst hname
  cases hn : V.nameOf e.values with
  | none =>
    rw [hn] at h
    obtain ⟨-, rfl, -, rfl⟩ := h
    rfl
  | some n =>
    rw [hn] at h
    rcases h with ⟨hle, rfl, -, rfl⟩ | ⟨hlt, -, rfl, -, rfl⟩
    · have hle' : ¬ (V.client c).recoveryConfig.maxRetries <
          wrap64 ((LBSEntry.mk i.text e.values).retryCount + 1) := not_lt.2 hle
      simp only [if_neg hle', V.lbsName_eq]
      rfl
    · have hlt' : (V.client c).recoveryConfig.maxRetries <
          wrap64 ((LBSEntry.mk i.text e.values).retryCount + 1) := hlt
      simp only [if_pos hlt']
      rfl

/-- The entries ever added for a data stream. -/
def History.ofStream (V : Service) (h : History) (name : String) : Set StreamID :=
  {i | ∃ v, h.added i = some v ∧ V.nameOf v = some name}

/-- No two of the entries are for the same data stream. -/
def NamedOnce (V : Service) (l : List (StreamID × Values)) : Prop :=
  ∀ p ∈ l, ∀ q ∈ l, ∀ name, V.nameOf p.2 = some name → V.nameOf q.2 = some name → p.1 = q.1

/-- A producer adds a data stream only if it was never added before. -/
def ProducedOnce (V : Service) (h : History) (e : Event V.machine) : Prop :=
  ∀ p ∈ History.entryProduced V e, ∀ q ∈ h.produced, V.nameOf q.2 = V.nameOf p.2 →
    V.nameOf p.2 = none

instance instDecidableProducedOnce (V : Service) (h : History) (e : Event V.machine) :
    Decidable (ProducedOnce V h e) :=
  inferInstanceAs (Decidable (∀ p ∈ History.entryProduced V e, ∀ q ∈ h.produced,
    V.nameOf q.2 = V.nameOf p.2 → V.nameOf p.2 = none))

section OfStream

variable {V : Service} {h : History} {P P' : Pool V.machine} {e : Event V.machine}

theorem NamedOnce.step (hN : NamedOnce V h.produced) (honce : ProducedOnce V h e) :
    NamedOnce V (h.update V P e).produced := by
  have hnew : ∀ p ∈ History.entryProduced V e, ∀ q ∈ h.produced, ∀ name,
      V.nameOf p.2 = some name → V.nameOf q.2 ≠ some name := by
    intro p hp q hq name hpn hqn
    simp [honce p hp q hq (hqn.trans hpn.symm)] at hpn
  intro p hp q hq name hpn hqn
  simp only [History.update, List.mem_append, Option.mem_toList] at hp hq
  rcases hp with hp | hp <;> rcases hq with hq | hq
  · rw [Option.mem_unique hp hq]
  · exact absurd hqn (hnew p hp q hq name hpn)
  · exact absurd hpn (hnew q hq p hp name hqn)
  · exact hN p hp q hq name hpn hqn

/-- Entries that replace none were produced. -/
def Rooted (h : History) : Prop :=
  ∀ i v, h.added i = some v → h.parent i = none → (i, v) ∈ h.produced

/-- Nothing loses what it replaces. -/
theorem History.parent_eq_none {i : StreamID} (hp : (h.update V P e).parent i = none) :
    h.parent i = none := by
  cases hr : h.reAdded V e with
  | none => simpa [History.update, hr] using hp
  | some d =>
    obtain ⟨k, j⟩ := d
    simp only [History.update, hr] at hp
    by_cases hi : i = j
    · subst hi
      simp at hp
    · rwa [Function.update_of_ne hi] at hp

theorem Rooted.step (hS : Sound V P h) (hs : Pool.Step P e P') (hR : Rooted h) :
    Rooted (h.update V P e) := by
  intro i v hv hp
  have hold : h.added i = some v → (i, v) ∈ (h.update V P e).produced := by
    intro hv
    exact List.mem_append_right _ (hR i v hv (History.parent_eq_none hp))
  cases change hS.obeying hs with
  | push j w x hlt hst hpend hadd =>
    by_cases hij : i = j
    · subst hij
      obtain rfl : w = v := by simpa [History.update, hadd] using hv
      cases e with
      | env e =>
        cases e with
        | produce stream k u =>
          by_cases hlbs : stream = V.lbs
          · obtain ⟨rfl, rfl, -⟩ : k = i ∧ u = w ∧ some k = x := by
              simpa [History.entryAdded, hlbs] using hadd
            simp [History.update, History.entryProduced, hlbs]
          · simp [History.entryAdded, hlbs] at hadd
        | _ => simp [History.entryAdded] at hadd
      | op t c o ch r f =>
        cases o with
        | xadd stream n u =>
          -- then it replaces what the recoverer holds
          obtain ⟨k, hk, -⟩ := exists_held_of_xadd hS hs
          simp only [History.entryAdded] at hadd
          split at hadd
          · next hc =>
            obtain ⟨rfl, hf⟩ := hc
            obtain ⟨rfl, -⟩ := Prod.mk.inj (Option.some.inj hadd)
            simp [History.update, History.reAdded, hf, hk] at hp
          · simp at hadd
        | _ => simp [History.entryAdded] at hadd
      | _ => simp [History.entryAdded] at hadd
    · exact hold (by simpa [History.update, hadd, Function.update_of_ne hij] using hv)
  | same _ _ hadd => exact hold (by simpa [History.update, hadd] using hv)
  | del _ _ _ _ _ _ _ hadd => exact hold (by simpa [History.update, hadd] using hv)
  | ack _ _ _ _ _ hadd => exact hold (by simpa [History.update, hadd] using hv)
  | deliver _ _ _ _ hadd => exact hold (by simpa [History.update, hadd] using hv)

/-- **The entries of a data stream are one line of re-queues**, if producers add it
once. -/
theorem Lineal.lineage (hL : Lineal V P h) (hR : Rooted h) (hN : NamedOnce V h.produced)
    (name : String) : Lineage h.parent (h.ofStream V name) where
  parent_lt i j hp := (hL.parent_lt i j hp).1
  parent_mem i j hp := by
    rintro ⟨w, hw, hname⟩
    obtain ⟨c, v, w', hv, hw', hreq⟩ := hL.requeues i j hp
    obtain rfl : w' = w := Option.some.inj (hw'.symm.trans hw)
    exact ⟨v, hv, hreq.nameOf_eq ▸ hname⟩
  parent_unique := hL.parent_unique
  root_unique := by
    rintro i ⟨v, hv, hi⟩ j ⟨w, hw, hj⟩ hpi hpj
    exact hN _ (hR i v hv hpi) _ (hR j w hw hpj) name hi hj

end OfStream

end RedisStreamClient.Impl
