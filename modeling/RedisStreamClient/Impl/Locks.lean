import RedisStreamClient.Impl.Lineage
import RedisStreamClient.Impl.MutexKey

/-!
# Who holds the locks

The lock of an LBS entry is the key made of its data stream name and its ID.  It is
only ever taken by the consumer that was handed the entry, under that consumer's name
(`Keyed`), so an extension of it that Redis executes finds its own value or no key, also long
after the entry was taken from its owner.

An entry is `Forsaken` once its lock is gone and no goroutine is left that could take
it again; then it stays so (`Forsaken.step`).
-/

namespace RedisStreamClient.Impl

open RedisStreamClient.Lib RedisStreamClient.Errs RedisStreamClient.Notifs
open RedisStreamClient.Redis

/-! ## Lock keys -/

/-- The key of the lock of entry `i` for a data stream. -/
def lockKey (name : String) (i : StreamID) : String := (LBSInfo.mk name i.text).formMutexKey

/-- The key determines the data stream and the entry. -/
theorem lockKey_inj {m n : String} {i j : StreamID} (h : lockKey m i = lockKey n j) :
    m = n ∧ i = j := by
  have hno : ∀ k : StreamID, '>' ∉ k.text.toList := by
    intro k
    rw [StreamID.toList_text]
    simp [not_mem_toDigits]
  obtain ⟨hname, hid⟩ := LBSInfo.ext_iff.1
    (formMutexKey_inj ⟨m, i.text⟩ ⟨n, j.text⟩ (hno i) (hno j) h)
  exact ⟨hname, StreamID.text_injective hid⟩

/-! ## Goroutines that work on an entry -/

namespace Session

/-- A goroutine that has the entry `id` to lock, or its lock to extend. -/
def Works (id : String) : Session → Prop
  | .batch todo => ∃ m ∈ todo, m.id = id
  | .locked m _ todo => m.id = id ∨ ∃ m ∈ todo, m.id = id
  | .recorded info todo | .announced info todo =>
    info.lbsInfo.idInLBS = id ∨ ∃ m ∈ todo, m.id = id
  | .extender info | .extending info => info.lbsInfo.idInLBS = id
  | _ => False

instance instDecidableWorks (id : String) (q : Session) : Decidable (q.Works id) :=
  match q with
  | .batch todo => inferInstanceAs (Decidable (∃ m ∈ todo, m.id = id))
  | .locked m _ todo => inferInstanceAs (Decidable (m.id = id ∨ ∃ m ∈ todo, m.id = id))
  | .recorded info todo | .announced info todo =>
    inferInstanceAs (Decidable (info.lbsInfo.idInLBS = id ∨ ∃ m ∈ todo, m.id = id))
  | .extender info | .extending info => inferInstanceAs (Decidable (info.lbsInfo.idInLBS = id))
  | .recover _ _ | .finishing | .popped _ | .acked _ | .deleted _ | .over | .stopped
  | .disowned _ | .leaving _ | .clearing _ | .broker => .isFalse not_false

variable {J : Json} {r : Client} {q : Session} {o : Op} {id : String}

/-- Only a delivery gives a goroutine an entry to work on. -/
theorem works_next (hok : q.Ok J r o) (hread : ∀ g n s, o ≠ .xreadGroup g n s) (reply : o.Reply)
    (hw : (q.next J r o reply).Works id) : q.Works id := by
  cases o with
  | xreadGroup g n s => exact absurd rfl (hread g n s)
  | lock m =>
    obtain ⟨message, name, todo, rfl, hn, -⟩ := hok
    rcases reply with _ | err
    · simpa [next, onLock, hn, Works] using hw
    · exact hw.elim
  | putStreamLocks name info =>
    obtain ⟨message, todo, rfl, hinfo, -⟩ := hok
    rcases hw with hw | hw
    · rw [hinfo] at hw
      exact .inl hw
    · exact .inr hw
  | goStartExtendingKey m lbsInfo info =>
    obtain ⟨todo, rfl | rfl⟩ := hok <;> exact .inr hw
  | xack stream group id =>
    obtain ⟨-, -, ⟨scope, stage, rfl, -⟩ | ⟨info, rfl, -⟩⟩ := hok
    · exact hw.elim
    · rcases reply with _ | _ <;> exact hw.elim
  | xdel stream id =>
    obtain ⟨-, ⟨scope, stage, rfl, -⟩ | ⟨info, rfl, -⟩⟩ := hok
    · exact hw.elim
    · rcases reply with _ | _ <;> exact hw.elim
  | xpending stream group idle start stop count => rcases reply with _ | _ <;> cases q <;> exact hw
  | unlock m => exact hw.elim
  | extend m =>
    obtain ⟨info, rfl, -⟩ := hok
    rcases reply with ⟨_ | _, _ | _⟩ <;> first | exact hw | exact hw.elim
  | popStreamLocksInfo name =>
    rcases hok with rfl | ⟨info, rfl, -⟩
    · rcases reply with _ | _ <;> exact hw.elim
    · exact hw.elim
  | isStreamProcessingDone name =>
    obtain ⟨info, rfl | rfl | rfl, -⟩ := hok <;> rcases reply with _ | _ <;>
      first | exact hw | exact hw.elim
  | isContextDone => rcases reply with _ | _ <;> cases q <;> first | exact hw | exact hw.elim
  | broker o =>
    cases o with
    | select ctx m => cases q <;> exact hw
    | _ => exact hw
  | record m =>
    cases m with
    | ackAddGap stream =>
      obtain ⟨scope, e, rfl⟩ := hok
      exact hw.elim
    | _ => exact hw
  | xrange stream start stop =>
    obtain ⟨-, -, scope, stage, rfl, -⟩ := hok
    exact hw.elim
  | existsKey key =>
    obtain ⟨scope, e, name, rfl, -⟩ := hok
    exact hw.elim
  | xadd stream maxLen values =>
    obtain ⟨scope, stage, rfl, -⟩ := hok
    exact hw.elim
  | sleep d => exact hw
  | waitOrDone d => exact hw

end Session

/-! ## Keys -/

section Keys

variable {V : Service} {h : History} {P P' : Pool V.machine} {e : Event V.machine}

/-- The environment lets keys expire. -/
theorem Env.step_keys {v : Env} {w w' : World} (h : Env.step v w = some w') :
    w'.server.keys = w.server.keys ∨
      ∃ key, v = .expire key ∧ w'.server.keys = Function.update w.server.keys key none := by
  cases v with
  | produce stream i values =>
    obtain ⟨⟨r, s⟩, hr, rfl⟩ := Option.map_eq_some_iff.1 h
    exact .inl (Server.xadd_keys hr)
  | expire key =>
    obtain rfl := Option.some.inj h
    exact .inr ⟨key, rfl, rfl⟩
  | tick ms | cancel c =>
    obtain rfl := Option.some.inj h
    exact .inl rfl

/-- **A key is an old one, or was just set** by a lock or an extension. -/
theorem key_step (hs : Pool.Step P e P') {key v : String}
    (hk : P'.state.server.keys key = some v) :
    P.state.server.keys key = some v ∨ ∃ t c m ch, m.name = key ∧ m.value = v ∧
      ((∃ r f, e = .op (M := V.machine) t c (.lock m) ch r f) ∨
        ∃ r f, e = .op (M := V.machine) t c (.extend m) ch r f) := by
  cases e with
  | op t c o ch r f =>
    have hx : World.exec c o ch P.state = some (r, P'.state, f) := hs.op_exec
    rcases World.exec_key_set hx hk with hk | rfl | rfl
    · exact .inl hk
    · exact .inr ⟨t, c, ⟨key, v⟩, ch, rfl, rfl, .inl ⟨r, f, rfl⟩⟩
    · exact .inr ⟨t, c, ⟨key, v⟩, ch, rfl, rfl, .inr ⟨r, f, rfl⟩⟩
  | env u =>
    cases hs with
    | env he =>
      rcases Env.step_keys he with heq | ⟨name, -, heq⟩
      · exact .inl (heq ▸ hk)
      · left
        rw [heq] at hk
        by_cases hm : key = name
        · subst hm
          simp at hk
        · rwa [Function.update_of_ne hm] at hk
  | _ =>
    cases hs
    exact .inl hk

/-- **A key goes away** when it expires or is unlocked. -/
theorem key_gone (hs : Pool.Step P e P') {key : String}
    (hk : P'.state.server.keys key = none) :
    P.state.server.keys key = none ∨ e = .env (.expire key) ∨
      ∃ t c m ch r f, e = .op (M := V.machine) t c (.unlock m) ch r f ∧ m.name = key := by
  cases hkey : P.state.server.keys key with
  | none => exact .inl rfl
  | some v =>
    right
    cases e with
    | op t c o ch r f =>
      have hx : World.exec c o ch P.state = some (r, P'.state, f) := hs.op_exec
      rcases World.exec_key_held hx hkey with hkey | ⟨m, rfl, hm⟩
      · cases hk.symm.trans hkey
      · exact .inr ⟨t, c, m, ch, r, f, rfl, hm⟩
    | env u =>
      left
      cases hs with
      | env he =>
        rcases Env.step_keys he with heq | ⟨name, rfl, heq⟩
        · cases (heq ▸ hk).symm.trans hkey
        · by_cases hm : key = name
          · rw [hm]
          · rw [heq, Function.update_of_ne hm] at hk
            cases hk.symm.trans hkey
    | _ =>
      cases hs
      cases hk.symm.trans hkey

/-- The lock of an entry, as its owner `n` takes it. -/
structure LockOf (V : Service) (s : Server) (h : History) (i : StreamID) (name n : String) :
    Prop where
  /-- The entry was delivered. -/
  delivered_le : i ≤ (V.pending s).top
  /-- The data stream is the one that the entry names. -/
  name_eq : ∃ v, h.added i = some v ∧ (LBSEntry.mk i.text v).dataStreamName V.json = .ok name
  /-- The owner was handed the entry. -/
  consumer_eq : h.consumer i = some n

theorem LockOf.mono {s s' : Server} {h' : History} (hle : (V.pending s).top ≤ (V.stream s).top)
    (g : Grows V s s' h h') {i : StreamID} {name n : String} (hl : LockOf V s h i name n) :
    LockOf V s' h' i name n where
  delivered_le := hl.delivered_le.trans g.delivered_le
  name_eq := by
    rw [g.added_eq i (hl.delivered_le.trans hle)]
    exact hl.name_eq
  consumer_eq := by rw [g.consumer_eq i hl.delivered_le, hl.consumer_eq]

/-- What a reader locks. -/
theorem lockOf_lock (hS : Sound V P h) {t c : Nat} {m : RedsyncMutex} {ch : Choice}
    {r : Option Err} {f : Option Call}
    (hs : Pool.Step P (.op (M := V.machine) t c (.lock m) ch r f) P') :
    ∃ i name, m = ⟨lockKey name i, (V.client c).consumerID⟩ ∧ (h.session t).Works i.text ∧
      LockOf V P.state.server h i name (V.client c).consumerID := by
  obtain ⟨g, hl⟩ := hs.op_live
  have hkn := hS.knows _ _ _ hl
  obtain ⟨message, name, todo, hq, hn, rfl⟩ : (h.session t).Ok V.json (V.client c) (.lock m) :=
    hS.obeying.ok hs
  rw [hq] at hkn
  obtain ⟨i, hid, hle, hv, hc⟩ := hkn message List.mem_cons_self
  refine ⟨i, name, ?_, ?_, hle, ⟨_, hv, hn⟩, hc⟩
  · rw [Session.mutexOf, hid]
    rfl
  · rw [hq]
    exact ⟨message, List.mem_cons_self, hid⟩

/-- What an extender extends. -/
theorem lockOf_extend (hS : Sound V P h) {t c : Nat} {m : RedsyncMutex} {ch : Choice}
    {r : Bool × Option Err} {f : Option Call}
    (hs : Pool.Step P (.op (M := V.machine) t c (.extend m) ch r f) P') :
    ∃ i name, m = ⟨lockKey name i, (V.client c).consumerID⟩ ∧ (h.session t).Works i.text ∧
      LockOf V P.state.server h i name (V.client c).consumerID := by
  obtain ⟨g, hl⟩ := hs.op_live
  have hkn := hS.knows _ _ _ hl
  obtain ⟨info, hq, rfl⟩ : (h.session t).Ok V.json (V.client c) (.extend m) := hS.obeying.ok hs
  rw [hq] at hkn
  obtain ⟨message, ⟨i, hid, hle, hv, hc⟩, hmid, hn, hmutex⟩ := hkn
  refine ⟨i, info.lbsInfo.dataStreamName, ?_, ?_, hle, ⟨_, hv, hn⟩, hc⟩
  · rw [hmutex, lockKey, ← hid, hmid]
  · rw [hq]
    exact hmid.symm.trans hid

/-- Every key is the lock of an entry, under the name of the consumer that was handed
it. -/
def Keyed (V : Service) (s : Server) (h : History) : Prop :=
  ∀ key v, s.keys key = some v → ∃ i name, key = lockKey name i ∧ LockOf V s h i name v

theorem Keyed.step (hS : Sound V P h) (hK : Keyed V P.state.server h) (hs : Pool.Step P e P') :
    Keyed V P'.state.server (h.update V P e) := by
  have hgr := (change hS.obeying hs).grows
  intro key v hk
  rcases key_step hs hk with hk | ⟨t, c, m, ch, rfl, rfl, ⟨r, f, rfl⟩ | ⟨r, f, rfl⟩⟩
  · obtain ⟨i, name, rfl, hl⟩ := hK key v hk
    exact ⟨i, name, rfl, hl.mono hS.delivered_le hgr⟩
  · obtain ⟨i, name, rfl, -, hl⟩ := lockOf_lock hS hs
    exact ⟨i, name, rfl, hl.mono hS.delivered_le hgr⟩
  · obtain ⟨i, name, rfl, -, hl⟩ := lockOf_extend hS hs
    exact ⟨i, name, rfl, hl.mono hS.delivered_le hgr⟩

end Keys

/-! ## Forsaken entries -/

/-- The entry was delivered, its lock is gone and nobody is left to take it. -/
structure Forsaken (V : Service) (P : Pool V.machine) (h : History) (i : StreamID)
    (name : String) : Prop where
  /-- The entry was delivered. -/
  delivered_le : i ≤ (V.pending P.state.server).top
  /-- No goroutine works on it. -/
  not_works : ∀ t c f, P.Live t c f → ¬ (h.session t).Works i.text
  /-- Its lock is gone. -/
  key_eq : P.state.server.keys (lockKey name i) = none

section Forsaken

variable {V : Service} {h : History} {P P' : Pool V.machine} {e : Event V.machine}

/-- A delivered entry that nobody works on is not worked on later. -/
theorem not_works_step (hS : Sound V P h) (hs : Pool.Step P e P') (hpub : Service.Public e)
    {i : StreamID} (hle : i ≤ (V.pending P.state.server).top)
    (hno : ∀ t c f, P.Live t c f → ¬ (h.session t).Works i.text) (t c : Nat) (f : Call)
    (hl : P'.Live t c f) : ¬ ((h.update V P e).session t).Works i.text := by
  refine hS.obeying.each (I := fun _ _ q ↦ ¬ Session.Works i.text q)
    (Q := fun _ _ q ↦ ¬ Session.Works i.text q) hs hno ?_ ?_ ?_ t c f hl
  · intro t c f _ _ _ hw
    exact hw
  · rintro t c f o ch r g rfl hl hok hx hw hnext
    have hok' : (h.session t).Ok V.json (V.client c) o := hok
    by_cases hread : ∃ g n s, o = .xreadGroup g n s
    · obtain ⟨g', n, s, rfl⟩ := hread
      obtain ⟨hgroup, rfl, hstream, hq⟩ := hok'
      rw [V.lbsName_eq] at hstream
      rw [V.lbsGroupName_eq] at hgroup
      subst hstream hgroup
      rcases r with err | streams
      · obtain ⟨m, hm, -⟩ := hnext
        simp at hm
      · -- what is handed out now was not delivered before
        obtain ⟨m, hm, hid⟩ := hnext
        obtain ⟨-, -, hstreams⟩ := World.exec_xreadGroup_ok (c := c) hx
        rw [hstreams] at hm
        obtain ⟨⟨j, v⟩, hmem, rfl⟩ := List.mem_map.1 hm
        obtain rfl : j = i := StreamID.text_injective hid
        have hlt : (V.pending P.state.server).top < j :=
          of_decide_eq_true (List.mem_filter.1 hmem).2
        exact absurd hlt hle.not_gt
    · exact hw (Session.works_next hok' (fun g n s h ↦ hread ⟨g, n, s, h⟩) r hnext)
  · intro c f hst hw
    cases e with
    | op t c' o ch r g =>
      obtain ⟨g', rfl, hg⟩ := Option.map_eq_some_iff.1 hst
      obtain ⟨rfl, rfl⟩ := Prod.mk.inj hg
      obtain ⟨m, l, info, rfl, rfl⟩ := World.exec_fork hs.op_exec
      obtain ⟨f', hl'⟩ := hs.op_live
      obtain ⟨todo, hq | hq⟩ : (h.session t).Ok V.json (V.client c')
          (.goStartExtendingKey m l info) := hS.obeying.ok hs
      · exact hno _ _ _ hl' (hq ▸ .inl hw)
      · exact hno _ _ _ hl' (hq ▸ .inl hw)
    | start c' f' =>
      obtain ⟨rfl, rfl⟩ := Prod.mk.inj (Option.some.inj hst)
      cases f' with
      | startExtendingKey m l info => exact hpub.elim
      | readLBSStream n d =>
        obtain ⟨m, hm, -⟩ := hw
        simp at hm
      | _ => exact hw.elim
    | _ => simp [Event.starts] at hst

/-- **A forsaken entry stays forsaken.** -/
theorem Forsaken.step (hS : Sound V P h) (hs : Pool.Step P e P') (hpub : Service.Public e)
    {i : StreamID} {name : String} (hF : Forsaken V P h i name) :
    Forsaken V P' (h.update V P e) i name where
  delivered_le := hF.delivered_le.trans (change hS.obeying hs).grows.delivered_le
  not_works := not_works_step hS hs hpub hF.delivered_le hF.not_works
  key_eq := by
    cases hk : P'.state.server.keys (lockKey name i) with
    | none => rfl
    | some v =>
      rcases key_step hs hk with hold | ⟨t, c, m, ch, hm, -, ⟨r, f, rfl⟩ | ⟨r, f, rfl⟩⟩
      · simp [hF.key_eq] at hold
      · obtain ⟨j, name', rfl, hw, -⟩ := lockOf_lock hS hs
        obtain ⟨-, rfl⟩ := lockKey_inj hm
        obtain ⟨g, hl⟩ := hs.op_live
        exact absurd hw (hF.not_works _ _ _ hl)
      · obtain ⟨j, name', rfl, hw, -⟩ := lockOf_extend hS hs
        obtain ⟨-, rfl⟩ := lockKey_inj hm
        obtain ⟨g, hl⟩ := hs.op_live
        exact absurd hw (hF.not_works _ _ _ hl)

end Forsaken

end RedisStreamClient.Impl
