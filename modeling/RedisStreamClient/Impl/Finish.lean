import RedisStreamClient.Impl.Naming
import RedisStreamClient.Impl.Lineage
import RedisStreamClient.Impl.Trace

/-!
# Finishing against recovery

`DoneStream` acknowledges, deletes and unlocks, in this order.  As long as the lock of an
entry does not go away before it is unlocked, a recoverer that checks the lock finds it,
or comes after the acknowledgement, when there is nothing left to take.

`finished_never_requeued` follows an entry from the moment its owner has locked it.
-/

namespace RedisStreamClient.Impl

open RedisStreamClient.Lib RedisStreamClient.Errs RedisStreamClient.Notifs
open RedisStreamClient.Redis

/-! ## The condition -/

/-- A text for the entry `i` is the one that Redis uses. -/
def Canonical (i : StreamID) (id : String) : Prop := StreamID.ofText? id = some i → id = i.text

theorem canonical_text (i j : StreamID) : Canonical i j.text := by
  intro h
  rw [StreamID.ofText?_text] at h
  rw [Option.some.inj h]

/-- A recoverer has checked the lock of the entry `i` and goes on to take it, or has taken
it already. -/
def Session.Checked (i : StreamID) (q : Session) : Prop :=
  (∃ d ∈ q.taking, StreamID.ofText? d.1.id = some i) ∨ q.holding = some i

section Condition

variable {V : Service}

/-- Every `Claim` of the entry `i` calls it what Redis calls it. -/
def CanonicalClaims (i : StreamID) : Event V.machine → Prop
  | .start _ (.claim info) => Canonical i info.idInLBS
  | _ => True

/-- The lock with this key is unlocked. -/
def unlocks (key : String) : Event V.machine → Bool
  | .op _ _ (.unlock m) _ _ _ => m.name == key
  | _ => false

/-- Goroutine `t` pops the record of an entry. -/
def pops (t : Nat) (info : LBSInfo) : Event V.machine → Bool
  | .op t' _ (.popStreamLocksInfo _) _ (some record) _ => t' == t && record.lbsInfo == info
  | _ => false

/-- **The lock of the entry `i` is there until it is unlocked**, the commands of
`DoneStream`s succeed, and `Claim`s of the entry call it what Redis calls it. -/
def LockKept (i : StreamID) (name : String) (γ : History × Trace V) : Event V.machine → Prop
  | .env (.expire key) => key = lockKey name i → γ.2.any (unlocks key) = true
  | .op t _ _ ch _ _ => (γ.1.session t).role = .finisher → ch.fault = .none
  | .start c f => CanonicalClaims (V := V) i (.start c f)
  | _ => True

instance instDecidableCanonicalClaims (i : StreamID) (e : Event V.machine) :
    Decidable (CanonicalClaims i e) :=
  match e with
  | .start _ (.claim info) =>
    inferInstanceAs (Decidable (StreamID.ofText? info.idInLBS = some i → info.idInLBS = i.text))
  | .start _ (.doneStream _) | .start _ (.reconcile _) | .start _ (.readLBSStream _ _)
  | .start _ (.startExtendingKey _ _ _) | .start _ (.broker _) | .op _ _ _ _ _ _ | .again _
  | .env _ | .crash _ => .isTrue trivial

instance instDecidableLockKept (i : StreamID) (name : String) (γ : History × Trace V)
    (e : Event V.machine) : Decidable (LockKept i name γ e) :=
  match e with
  | .env (.expire key) =>
    inferInstanceAs (Decidable (key = lockKey name i → γ.2.any (unlocks key) = true))
  | .op t _ _ ch _ _ =>
    inferInstanceAs (Decidable ((γ.1.session t).role = .finisher → ch.fault = .none))
  | .start c f => inferInstanceAs (Decidable (CanonicalClaims (V := V) i (.start c f)))
  | .env (.produce _ _ _) | .env (.tick _) | .env (.cancel _) | .again _ | .crash _ =>
    .isTrue trivial

end Condition

/-! ## What holds in every run -/

/-- What `DoneStream` has deleted is not in the LBS. -/
def DeletedGone (V : Service) (s : Server) (q : Session) : Prop :=
  ∀ info (i : StreamID), q = .deleted info → info.lbsInfo.idInLBS = i.text → i ∉ V.stream s

section Deleted

variable {V : Service} {h : History} {P P' : Pool V.machine} {e : Event V.machine}

/-- The entry of a record that a client owns, and the key of its lock. -/
theorem Owns.exists_lockKey {s : Server} {c : Nat} {info : StreamLocksInfo}
    (ho : Owns V s h c info) : ∃ i : StreamID, info.lbsInfo.idInLBS = i.text ∧
      i ≤ (V.pending s).top ∧
        info.redsyncMutex.name = lockKey info.lbsInfo.dataStreamName i := by
  obtain ⟨m, ⟨i, hi, hle, -⟩, hm, -, hmutex⟩ := ho
  refine ⟨i, by rw [← hm, hi], hle, ?_⟩
  rw [hmutex, lockKey, ← hi, hm]

theorem deletedGone_step (hS : Sound V P h) (hs : Pool.Step P e P')
    (hD : ∀ t c f, P.Live t c f → DeletedGone V P.state.server (h.session t)) (t c : Nat) (f : Call)
    (hl : P'.Live t c f) : DeletedGone V P'.state.server ((h.update V P e).session t) := by
  have hgr := (change hS.obeying hs).grows
  refine hS.obeying.each (K := V.contract) (I := fun _ _ q ↦ DeletedGone V P.state.server q)
    (Q := fun _ _ q ↦ DeletedGone V P'.state.server q) hs hD ?_ ?_ ?_ t c f hl
  · intro t c f hl _ _ hq info i hdel hid hin
    have hkn := hS.knows _ _ _ hl
    rw [show h.session t = .deleted info from hdel] at hkn
    have hle := (hkn.2 i hid).1.trans hS.delivered_le
    exact hq info i hdel hid (hgr.mem_stream hle hin)
  · rintro t c f o ch r g rfl hl hok hx hq info i hdel hid
    have hok' : (h.session t).Ok V.json (V.client c) o := hok
    have hdel' : (h.session t).next V.json (V.client c) o r = .deleted info := hdel
    have hkn := hS.knows _ _ _ hl
    have hrole : (h.session t).role = .finisher := by
      rw [← Session.role_next hok' r, hdel']
      rfl
    rcases Session.finisher_cases hrole hok' r with
      ⟨-, heq⟩ | ⟨heq, n, rfl⟩ | ⟨info', s, k, heq, rfl⟩ | ⟨info', s, heq, rfl⟩ | ⟨info', heq, rfl⟩
    · rw [heq] at hdel'
      rw [hdel'] at hkn
      intro hin
      exact hq info i hdel' hid (hgr.mem_stream ((hkn.2 i hid).1.trans hS.delivered_le) hin)
    · rw [heq] at hdel'
      rcases r with _ | _ <;> cases hdel'
    · rw [heq] at hdel'
      rcases r with _ | _ <;> cases hdel'
    · rw [heq] at hdel' hok'
      obtain ⟨hstream, -⟩ := hok'
      rw [V.lbsName_eq] at hstream
      subst hstream
      rcases r with err | k
      · cases hdel'
      obtain rfl : info' = info := Session.deleted.inj hdel'
      obtain ⟨-, ⟨-, -, err, herr⟩ | ⟨-, hw, -⟩⟩ := World.exec_xdel (c := c) hx
      · cases herr
      rw [hid] at hw
      rcases P.state.server.xdel_cases V.lbs i.text with ⟨j, hj, -, hdel⟩ | ⟨hno, hdel⟩
      · obtain rfl : i = j := by simpa using hj
        rw [hw, World.server_setServer, hdel, Service.stream_setStream]
        simp
      · rw [hw, World.server_setServer, hdel]
        exact hno i (StreamID.ofText?_text i)
    · cases hdel'
  · intro c f _ info i hdel
    cases f <;> cases hdel

end Deleted

/-! ## From the lock to the end -/

/-- How far a `DoneStream` that popped the record of the entry `i` is. -/
def Session.Closes (V : Service) (s : Server) (i : StreamID) : Session → Prop
  | .popped info | .acked info | .deleted info => info.lbsInfo.idInLBS = i.text
  | .over => i ∉ V.pending s ∧ i ∉ V.stream s
  | _ => False

/-- **What holds from the moment the entry is locked.** -/
structure Guarded (V : Service) (i : StreamID) (name n : String) (P : Pool V.machine)
    (γ : History × Trace V) : Prop where
  /-- The service is sound. -/
  sound : Sound V P γ.1
  /-- Recoverers call the entry what Redis calls it. -/
  names : ∀ t c f, P.Live t c f → (γ.1.session t).Names (Canonical i)
  /-- What `DoneStream`s have deleted is gone. -/
  deleted : ∀ t c f, P.Live t c f → DeletedGone V P.state.server (γ.1.session t)
  /-- The entry is the one that was locked. -/
  lockOf : LockOf V P.state.server γ.1 i name n
  /-- While it is pending its lock is there. -/
  locked : i ∈ V.pending P.state.server → P.state.server.keys (lockKey name i) ≠ none
  /-- While it is pending nobody has found the lock gone. -/
  not_taking : i ∈ V.pending P.state.server → ∀ t c f, P.Live t c f →
    ∀ entry m, (γ.1.session t).taking = some (entry, m) → StreamID.ofText? entry.id ≠ some i
  /-- Nobody has taken it. -/
  not_held : ∀ t c f, P.Live t c f → γ.1.held t ≠ some i
  /-- Once it is unlocked it is pending no more. -/
  unlocked : γ.2.any (unlocks (lockKey name i)) = true → i ∉ V.pending P.state.server
  /-- Only goroutines that were started pop its record. -/
  popped_lt : ∀ t, γ.2.any (pops t ⟨name, i.text⟩) = true → t < P.threads.length
  /-- Whoever popped its record is about to finish it, or has. -/
  closes : ∀ t c d, P.Live t c (.doneStream d) → γ.2.any (pops t ⟨name, i.text⟩) = true →
    (γ.1.session t).Closes V P.state.server i

/-- What a recoverer acknowledges, if it can be parsed, it has found dead, or not found at
all. -/
theorem acks_stage {V : Service} {h : History} {P P' : Pool V.machine} {e : Event V.machine}
    (hS : Sound V P h) (hs : Pool.Step P e P') {t : Nat} {i : StreamID} {scope : Scope}
    {stage : Stage} {v : Values} {name : String} (hacks : History.Acks V P t i e)
    (hq : h.session t = .recover scope stage) (hv : h.added i = some v)
    (hname : V.nameOf v = some name) :
    (∃ id, stage = .missing id ∧ StreamID.ofText? id = some i) ∨
      ∃ entry, stage = .dead entry name ∧ StreamID.ofText? entry.id = some i := by
  have hname' := Service.nameOf_eq_some.1 hname
  obtain ⟨c, id, ch, r, f, rfl, -, hid, hp⟩ := History.Acks.exists_op hacks
  obtain ⟨g, hl⟩ := hs.op_live
  have hkn := hS.knows _ _ _ hl
  -- what a recoverer has read of an entry that is still there is what was added
  have hread : ∀ entry : LBSEntry, Read V P.state.server h entry →
      StreamID.ofText? entry.id = some i → entry.values = v := by
    intro entry hread hi
    exact Option.some.inj (((hread i hi).2 (hS.pending_sub i hp)).symm.trans hv)
  obtain ⟨-, -, ⟨scope', stage', hq', hack⟩ | ⟨info, hq', -⟩⟩ :
    (h.session t).Ok V.json (V.client c) (.xack V.lbs V.group id) := hS.obeying.ok hs
  · obtain ⟨rfl, rfl⟩ := Session.recover.inj (hq.symm.trans hq')
    rw [hq] at hkn
    cases stage with
    | missing id' =>
      obtain rfl : id = id' := hack
      exact .inl ⟨id, rfl, hid⟩
    | found entry =>
      obtain ⟨rfl, err, herr⟩ := hack
      obtain ⟨id', values⟩ := entry
      obtain rfl : values = v := hread _ hkn hid
      exact absurd (herr.symm.trans hname') (by simp)
    | dead entry m =>
      obtain rfl : id = entry.id := hack
      obtain ⟨id', values⟩ := entry
      obtain rfl : values = v := hread _ hkn.1 hid
      obtain rfl : m = name := Except.ok.inj (hkn.2.symm.trans hname')
      exact .inr ⟨_, rfl, hid⟩
    | _ => exact hack.elim
  · cases hq.symm.trans hq'

theorem Session.Closes.mono {V : Service} {s s' : Server} {h h' : History} {i : StreamID}
    {q : Session} (hgr : Grows V s s' h h') (hd : i ≤ (V.pending s).top)
    (hi : i ≤ (V.stream s).top) (hq : q.Closes V s i) : q.Closes V s' i := by
  by_cases hover : q = .over
  · subst hover
    exact ⟨fun hp ↦ hq.1 (hgr.mem_pending i hd hp), fun hin ↦ hq.2 (hgr.mem_stream hi hin)⟩
  · cases q <;> first | exact hq | exact absurd rfl hover

theorem exists_of_pops {V : Service} {t : Nat} {info : LBSInfo} {e : Event V.machine}
    (h : pops t info e = true) : ∃ c m ch record f,
      e = .op t c (.popStreamLocksInfo m) ch (some record) f ∧ record.lbsInfo = info := by
  cases e with
  | op t' c o ch r f =>
    cases o with
    | popStreamLocksInfo m =>
      rcases r with _ | record
      · cases h
      · obtain ⟨ht, hrec⟩ := Bool.and_eq_true_iff.1 h
        obtain rfl := beq_iff_eq.1 ht
        exact ⟨c, m, ch, record, f, rfl, beq_iff_eq.1 hrec⟩
    | _ => cases h
  | _ => cases h

namespace Guarded

variable {V : Service} {i : StreamID} {name n : String} {P P' : Pool V.machine}
  {γ : History × Trace V} {e : Event V.machine}

section Step

variable (hG : Guarded V i name n P γ) (hs : Pool.Step P e P')

include hG hs

/-- Whoever unlocks the entry has acknowledged it. -/
theorem not_pending_of_unlock {t c : Nat} {m : RedsyncMutex} {ch : Choice}
    {r : Bool × Option Err} {f : Option Call}
    (he : e = .op (M := V.machine) t c (.unlock m) ch r f) (hm : m.name = lockKey name i) :
    i ∉ V.pending P.state.server := by
  subst he
  obtain ⟨g, hl⟩ := hs.op_live
  have hkn := hG.sound.knows _ _ _ hl
  obtain ⟨info, hq, rfl⟩ : (γ.1.session t).Ok V.json (V.client c) (.unlock m) :=
    hG.sound.obeying.ok hs
  rw [hq] at hkn
  obtain ⟨hown, hset⟩ := hkn
  obtain ⟨j, hid, -, hkey⟩ := hown.exists_lockKey
  obtain ⟨-, rfl⟩ := lockKey_inj (hkey.symm.trans hm)
  exact (hset j hid).2

theorem locked_step (hkept : LockKept i name γ e) (hp : i ∈ V.pending P'.state.server) :
    P'.state.server.keys (lockKey name i) ≠ none := by
  have hp₀ := (change hG.sound.obeying hs).grows.mem_pending i hG.lockOf.delivered_le hp
  intro hk
  rcases key_gone hs hk with hk | rfl | ⟨t, c, m, ch, r, f, he, hm⟩
  · exact hG.locked hp₀ hk
  · exact hG.unlocked (hkept rfl) hp₀
  · exact hG.not_pending_of_unlock hs he hm hp₀

theorem not_taking_step (hp : i ∈ V.pending P'.state.server) (t c : Nat) (f : Call)
    (hl : P'.Live t c f) (entry : LBSEntry) (m : String)
    (htake : ((V.note γ P e).1.session t).taking = some (entry, m)) :
    StreamID.ofText? entry.id ≠ some i := by
  have hp₀ := (change hG.sound.obeying hs).grows.mem_pending i hG.lockOf.delivered_le hp
  refine hG.sound.obeying.each (K := V.contract)
    (I := fun _ _ q ↦ ∀ entry m, Session.taking q = some (entry, m) →
      StreamID.ofText? entry.id ≠ some i)
    (Q := fun _ _ q ↦ ∀ entry m, Session.taking q = some (entry, m) →
      StreamID.ofText? entry.id ≠ some i) hs (hG.not_taking hp₀) ?_ ?_ ?_ t c f hl entry m htake
  · intro t c f _ _ _ hq
    exact hq
  · rintro t c f o ch r g rfl hl hok hx hq entry m htake hid
    by_cases hex : ∃ key, o = .existsKey key
    · -- it would have found the lock
      obtain ⟨key, rfl⟩ := hex
      obtain ⟨scope, hq, hname, rfl, hkey⟩ := taking_existsKey hG.sound.obeying hs htake
      have hkn := hG.sound.knows _ _ _ hl
      have hcan := hG.names _ _ _ hl
      rw [hq] at hkn hcan
      obtain ⟨v, hv, hvn⟩ := hG.lockOf.name_eq
      have hval := (hkn i hid).2 (hG.sound.pending_sub i hp₀)
      obtain ⟨id, values⟩ := entry
      obtain rfl : values = v := Option.some.inj (hval.symm.trans hv)
      obtain rfl : m = name := Except.ok.inj (hname.symm.trans hvn)
      obtain rfl : id = i.text := hcan.2 hid
      exact hG.locked hp₀ hkey
    · exact hq entry m (Session.taking_next hok (fun key hk ↦ hex ⟨key, hk⟩) htake) hid
  · intro c f _ entry m htake
    have hnone := Session.taking_start f
    exact absurd (hnone.symm.trans htake) (by simp)

theorem not_held_step (t c : Nat) (f : Call) (hl : P'.Live t c f) :
    (V.note γ P e).1.held t ≠ some i := by
  intro hheld
  have hheld' := hheld
  obtain ⟨hl₀, hold, -⟩ | hacks := held_step hG.sound hs hl hheld
  · exact hG.not_held t c f hl₀ hold
  obtain ⟨c', id, ch, r, g, rfl, -, hid, hp⟩ := History.Acks.exists_op hacks
  obtain ⟨f', hl'⟩ := hs.op_live
  have hsess : (V.note γ P (.op (M := V.machine) t c' (.xack V.lbs V.group id) ch r g)).1.session t =
      (γ.1.session t).next V.json (V.client c') (.xack V.lbs V.group id) r :=
    History.session_op hl'.lt_length
  have hok : (γ.1.session t).Ok V.json (V.client c') (.xack V.lbs V.group id) :=
    hG.sound.obeying.ok hs
  rw [History.held, hsess] at hheld'
  -- who holds an entry is a recoverer
  obtain ⟨scope', entry, m, hwon, -⟩ := Session.exists_won_of_holding hheld'
  obtain ⟨scope, stage, hq⟩ := Session.exists_recover_of_role (q := γ.1.session t) (by
    rw [← Session.role_next hok r, hwon]
    rfl)
  obtain ⟨v, hv, hvn⟩ := hG.lockOf.name_eq
  rcases acks_stage hG.sound hs hacks hq hv (Service.nameOf_eq_some.2 hvn) with
    ⟨id', rfl, -⟩ | ⟨entry', rfl, hentry⟩
  · rw [hq] at hwon
    rcases r with _ | _ <;> cases hwon
  · exact hG.not_taking hp t c' f' hl' entry' name (by rw [hq]; rfl) hentry

theorem unlocked_step (hun : (V.note γ P e).2.any (unlocks (lockKey name i)) = true) :
    i ∉ V.pending P'.state.server := by
  have hgr := (change hG.sound.obeying hs).grows
  have hno : i ∉ V.pending P.state.server := by
    rcases Bool.or_eq_true_iff.1 hun with hnow | hbefore
    · cases e with
      | op t c o ch r f =>
        cases o with
        | unlock m => exact hG.not_pending_of_unlock hs rfl (beq_iff_eq.1 hnow)
        | _ => cases hnow
      | _ => cases hnow
    · exact hG.unlocked hbefore
  exact fun hp ↦ hno (hgr.mem_pending i hG.lockOf.delivered_le hp)

theorem popped_lt_step (t : Nat) (hpop : (V.note γ P e).2.any (pops t ⟨name, i.text⟩) = true) :
    t < P'.threads.length := by
  refine lt_of_lt_of_le ?_ hs.length_le
  rcases Bool.or_eq_true_iff.1 hpop with hnow | hbefore
  · obtain ⟨c, m, ch, record, f, rfl, -⟩ := exists_of_pops hnow
    obtain ⟨g, hl⟩ := hs.op_live
    exact hl.lt_length
  · exact hG.popped_lt t hbefore

/-- What a `DoneStream` that popped the record does next. -/
theorem closes_next {t c : Nat} {d : String} {o : Op} {ch : Choice} {r : o.Reply} {f : Option Call}
    (he : e = .op (M := V.machine) t c o ch r f) (hkept : LockKept i name γ e)
    (hl : P.Live t c (.doneStream d)) (hq : (γ.1.session t).Closes V P.state.server i) :
    ((γ.1.session t).next V.json (V.client c) o r).Closes V P'.state.server i := by
  have hgr := (change hG.sound.obeying hs).grows
  have hkeep := hq.mono hgr hG.lockOf.delivered_le (hG.lockOf.delivered_le.trans
    hG.sound.delivered_le)
  subst he
  have hok : (γ.1.session t).Ok V.json (V.client c) o := hG.sound.obeying.ok hs
  have hrole : (γ.1.session t).role = .finisher := hG.sound.plays _ _ _ hl
  have hch : ch.fault = .none := hkept hrole
  have hkn := hG.sound.knows _ _ _ hl
  have hdel := hG.deleted _ _ _ hl
  rcases Session.finisher_cases hrole hok r with ⟨-, heq⟩ | ⟨heq, m, rfl⟩ | ⟨info, s, k, heq, rfl⟩ |
    ⟨info, s, heq, rfl⟩ | ⟨info, heq, rfl⟩
  · rw [heq]
    exact hkeep
  · rw [heq] at hq
    exact hq.elim
  · rw [heq] at hq ⊢
    have hx : World.exec c (.xack s k info.lbsInfo.idInLBS) ch P.state = some (r, P'.state, f) :=
      hs.op_exec
    rw [show info.lbsInfo.idInLBS = i.text from hq, World.exec_xack_clean hch] at hx
    obtain ⟨hr, -⟩ := Prod.mk.inj (Option.some.inj hx)
    obtain ⟨j, hj⟩ := P.state.server.exists_xack_text s k i
    show (Session.onAck (.popped info) r).Closes V P'.state.server i
    rw [← hr, hj]
    exact hq
  · rw [heq] at hq ⊢
    have hx : World.exec c (.xdel s info.lbsInfo.idInLBS) ch P.state = some (r, P'.state, f) :=
      hs.op_exec
    rw [show info.lbsInfo.idInLBS = i.text from hq, World.exec_xdel_clean hch] at hx
    obtain ⟨hr, -⟩ := Prod.mk.inj (Option.some.inj hx)
    obtain ⟨j, hj⟩ := P.state.server.exists_xdel_text s i
    show (Session.onDel (.acked info) r).Closes V P'.state.server i
    rw [← hr, hj]
    exact hq
  · rw [heq] at hq hkn hdel
    refine ⟨?_, ?_⟩
    · exact fun hp ↦ (hkn.2 i hq).2 (hgr.mem_pending i hG.lockOf.delivered_le hp)
    · exact fun hin ↦ hdel info i rfl hq
        (hgr.mem_stream (hG.lockOf.delivered_le.trans hG.sound.delivered_le) hin)

theorem closes_step (hkept : LockKept i name γ e) (t c : Nat) (d : String)
    (hl : P'.Live t c (.doneStream d))
    (hpop : (V.note γ P e).2.any (pops t ⟨name, i.text⟩) = true) :
    ((V.note γ P e).1.session t).Closes V P'.state.server i := by
  have hgr := (change hG.sound.obeying hs).grows
  have hlt : t < P.threads.length := by
    rcases Bool.or_eq_true_iff.1 hpop with hnow | hbefore
    · obtain ⟨c, m, ch, record, f, rfl, -⟩ := exists_of_pops hnow
      obtain ⟨g, hl⟩ := hs.op_live
      exact hl.lt_length
    · exact hG.popped_lt t hbefore
  obtain ⟨hl₀, -⟩ := (hs.live_iff.1 hl).resolve_right fun hnew ↦ absurd hnew.1 hlt.ne
  by_cases hm : e.mover = some t
  swap
  · rw [show (V.note γ P e).1.session t = γ.1.session t from
      History.session_of_mover_ne hlt hm]
    rcases Bool.or_eq_true_iff.1 hpop with hnow | hbefore
    · obtain ⟨c, m, ch, record, f, rfl, -⟩ := exists_of_pops hnow
      exact absurd rfl hm
    · exact (hG.closes t c d hl₀ hbefore).mono hgr hG.lockOf.delivered_le
        (hG.lockOf.delivered_le.trans hG.sound.delivered_le)
  cases e with
  | op t' c' o ch r f =>
    obtain rfl : t' = t := Option.some.inj hm
    obtain ⟨g, hl'⟩ := hs.op_live
    obtain ⟨rfl, rfl⟩ := hl₀.unique hl'
    rw [show (V.note γ P (.op t' c o ch r f)).1.session t' = _ from History.session_op hlt]
    rcases Bool.or_eq_true_iff.1 hpop with hnow | hbefore
    · obtain ⟨c'', m, ch', record, f', he, hrec⟩ := exists_of_pops hnow
      obtain ⟨-, rfl, rfl, -, hr, -⟩ := Event.op.inj he
      obtain rfl := eq_of_heq hr
      have hok : (γ.1.session t').Ok V.json (V.client c) (.popStreamLocksInfo m) :=
        hG.sound.obeying.ok hs
      have hrole : (γ.1.session t').role = .finisher := hG.sound.plays _ _ _ hl₀
      rcases hok with hq | ⟨info, hq, -⟩
      · rw [hq]
        show record.lbsInfo.idInLBS = i.text
        rw [hrec]
      · rw [hq] at hrole
        cases hrole
    · exact hG.closes_next hs rfl hkept hl₀ (hG.closes t' c d hl₀ hbefore)
  | _ => simp [Event.mover] at hm

/-- **Every step keeps it.** -/
theorem step (hpub : Service.Public e) (hkept : LockKept i name γ e) :
    Guarded V i name n P' (V.note γ P e) where
  sound := hG.sound.step hs hpub
  names := by
    refine names_step hG.sound hs (fun _ ↦ id) (fun j _ ↦ canonical_text i j) ?_ hG.names
    rintro c info rfl
    exact hkept
  deleted := deletedGone_step hG.sound hs hG.deleted
  lockOf := hG.lockOf.mono hG.sound.delivered_le (change hG.sound.obeying hs).grows
  locked := hG.locked_step hs hkept
  not_taking := hG.not_taking_step hs
  not_held := hG.not_held_step hs
  unlocked := hG.unlocked_step hs
  popped_lt := hG.popped_lt_step hs
  closes := hG.closes_step hs hkept

end Step

end Guarded

/-! ## Main result -/

/-- **The owner of the entry `i` has just locked it**, and no recoverer has checked its lock
yet. -/
structure JustLocked (V : Service) (i : StreamID) (name : String) (P : Pool V.machine)
    (h : History) : Prop where
  /-- A reader has locked the entry, and got the lock. -/
  reached : ∃ P₀ P₁ h₁ t c m ch f, Fresh V P₀ ∧
    V.Run (fun _ _ e ↦ CanonicalClaims i e) P₀ P₁ h₁ ∧ m.name = lockKey name i ∧
      Pool.Step P₁ (.op (M := V.machine) t c (.lock m) ch none f) P ∧
        h = h₁.update V P₁ (.op (M := V.machine) t c (.lock m) ch none f)
  /-- Every check of the lock is yet to come. -/
  unchecked : ∀ t c f, P.Live t c f → ¬ (h.session t).Checked i

section Main

variable {V : Service} {i : StreamID} {name : String} {P : Pool V.machine} {h : History}

theorem JustLocked.guarded (hJ : JustLocked V i name P h) : ∃ n, Guarded V i name n P (h, []) := by
  obtain ⟨⟨P₀, P₁, h₁, t, c, m, ch, f, h₀, hr, hm, hs, rfl⟩, hunchecked⟩ := hJ
  obtain ⟨hS, hnames, hdeleted⟩ := hr.invariant
    (I := fun P h ↦ (∀ t c f, P.Live t c f → (h.session t).Names (Canonical i)) ∧
      ∀ t c f, P.Live t c f → DeletedGone V P.state.server (h.session t)) h₀
    ⟨fun _ _ _ hl ↦ absurd hl h₀.not_live, fun _ _ _ hl ↦ absurd hl h₀.not_live⟩ (by
      rintro P h e P' hS - - hcan hs ⟨hN, hD⟩
      refine ⟨names_step hS hs (fun _ ↦ id) (fun j _ ↦ canonical_text i j) ?_ hN,
        deletedGone_step hS hs hD⟩
      rintro c info rfl
      exact hcan)
  obtain ⟨j, name', rfl, -, hlock⟩ := lockOf_lock hS hs
  obtain ⟨rfl, rfl⟩ := lockKey_inj hm
  have hx : World.exec c (.lock ⟨lockKey name' j, (V.client c).consumerID⟩) ch P₁.state =
    some (none, P.state, f) := hs.op_exec
  refine ⟨(V.client c).consumerID, hS.step hs trivial, ?_, deletedGone_step hS hs hdeleted,
    hlock.mono hS.delivered_le (change hS.obeying hs).grows, ?_, ?_, ?_, ?_, ?_, ?_⟩
  · exact names_step hS hs (fun _ ↦ id) (fun k _ ↦ canonical_text j k) (by simp) hnames
  · -- it got the lock, so the key is there
    intro _
    obtain ⟨-, ⟨-, -, err, herr⟩ | ⟨-, hw, ⟨-, hr⟩ | ⟨err, -, herr⟩⟩⟩ := World.exec_lock hx
    · cases herr
    · rcases P₁.state.server.lock_cases (lockKey name' j) (V.client c).consumerID with
        ⟨-, hl⟩ | ⟨v, -, hl⟩
      · rw [hw, World.server_setServer, hl]
        simp [Server.setKey]
      · rw [hl] at hr
        cases hr
    · cases herr
  · intro _ u d g hl entry k htake hid
    exact hunchecked u d g hl (.inl ⟨(entry, k), htake, hid⟩)
  · intro u d g hl hheld
    exact hunchecked u d g hl (.inr hheld)
  · exact fun hun ↦ absurd hun (by simp)
  · exact fun u hpop ↦ absurd hpop (by simp)
  · exact fun u d k _ hpop ↦ absurd hpop (by simp)

end Main

/-- **A stream that finishes is never re-queued by a racing recoverer.**  From the moment
the owner has locked an entry, in every run in which its lock does not go away before it is
unlocked, no recoverer adds a successor of the entry, and when the `DoneStream` that popped
its record has returned, the entry is neither pending nor in the LBS. -/
theorem finished_never_requeued (V : Service) (i : StreamID) (name : String)
    (P₁ P : Pool V.machine) (h₁ : History) (γ : History × Trace V)
    (hJ : JustLocked V i name P₁ h₁)
    (hr : Pool.Run V.note (fun γ _ e ↦ Service.Public e ∧ LockKept i name γ e) (P₁, (h₁, [])) P γ) :
    (∀ t c s k w ch r f P', Pool.Step P (.op (M := V.machine) t c (.xadd s k w) ch r f) P' →
      γ.1.held t ≠ some i) ∧
      ∀ t c d, P.Live t c (.doneStream d) → γ.2.any (pops t ⟨name, i.text⟩) = true → P.Over t →
        i ∉ V.pending P.state.server ∧ i ∉ V.stream P.state.server := by
  obtain ⟨n, hG₁⟩ := hJ.guarded
  have hG : Guarded V i name n P γ :=
    Pool.Run.invariant hG₁ (fun _ _ _ _ h hg hs ↦ h.step hs hg.1 hg.2) hr
  constructor
  · intro t c s k w ch r f P' hs
    obtain ⟨g, hl⟩ := hs.op_live
    exact hG.not_held t c g hl
  · intro t c d hl hpop hover
    have hcloses := hG.closes t c d hl hpop
    have hrole : (γ.1.session t).role = .finisher := hG.sound.plays _ _ _ hl
    obtain ⟨p, ht⟩ := hl
    obtain ⟨a, rfl⟩ := hover _ p ht rfl
    have hexit : (γ.1.session t).Exit (.inl a) := hG.sound.obeying _ _ _ ht rfl
    have hq := Session.over_of_exit hrole hexit
    rw [hq] at hcloses
    exact hcloses

namespace Demo

/-- Client `a` is handed the entry `1-0` of `orders`, which client `b` claims: it has read
the entry. -/
def beforeLock : Pool service.machine × History :=
  service.reached (fun _ _ e ↦ CanonicalClaims ⟨1, 0⟩ e) idle
    ([produce 1 "orders", .start 0 (.readLBSStream 0 0)] ++ ops 0 2 ++
      [.start 1 (.claim ⟨"orders", "1-0"⟩)] ++ ops 1 1) (by decide +kernel)

/-- Then `a` locks it. -/
def lockStep : Event service.machine × Pool service.machine :=
  (beforeLock.1.step? (.op 0 .plain)).get (by decide +kernel)

/-- The history after that. -/
def afterLock : History := beforeLock.2.update service beforeLock.1 lockStep.1

/-- The reader of `a` announces the entry and starts an extender; then `DoneStream` runs to
its end while `b` checks the lock after the deletion. -/
def closing : Pool service.machine × (History × Trace service) :=
  (Pool.schedule service.note
    (fun γ _ e ↦ Service.Public e ∧ LockKept ⟨1, 0⟩ "orders" γ e)
    (ops 0 6 ++ [.start 0 (.doneStream "orders")] ++ ops 3 3 ++ ops 1 1 ++ ops 3 3)
    (lockStep.2, (afterLock, []))).get (by decide +kernel)

/-- A lock is taken. -/
def locks (key : String) : Event service.machine → Bool
  | .op _ _ (.lock m) _ none _ => m.name == key
  | _ => false

theorem exists_of_locks {key : String} {e : Event service.machine} (h : locks key e = true) :
    ∃ t c m ch f, e = .op t c (.lock m) ch none f ∧ m.name = key := by
  cases e with
  | op t c o ch r f =>
    cases o with
    | lock m =>
      rcases r with _ | err
      · exact ⟨t, c, m, ch, f, rfl, beq_iff_eq.1 h⟩
      · cases h
    | _ => cases h
  | _ => cases h

theorem justLocked : JustLocked service ⟨1, 0⟩ "orders" lockStep.2 afterLock where
  reached := by
    have hsome : (beforeLock.1.step? (.op 0 .plain)).isSome = true := by decide +kernel
    have hs : Pool.Step beforeLock.1 lockStep.1 lockStep.2 :=
      Pool.step?_step (Option.some_get hsome).symm
    have hlocks : locks (lockKey "orders" ⟨1, 0⟩) lockStep.1 = true := by decide +kernel
    obtain ⟨t, c, m, ch, f, he, hm⟩ := exists_of_locks hlocks
    refine ⟨idle, beforeLock.1, beforeLock.2, t, c, m, ch, f, fresh_idle, Service.run_reached _, hm,
      he ▸ hs, ?_⟩
    rw [← he]
    rfl
  unchecked := by
    intro t c f hl
    have hall : ∀ t < lockStep.2.threads.length, ¬ (afterLock.session t).Checked ⟨1, 0⟩ := by
      unfold Session.Checked
      decide +kernel
    exact hall t hl.lt_length

/-- The call is a `DoneStream`. -/
def isDoneStream : Call → Bool
  | .doneStream _ => true
  | _ => false

end Demo

/-- Client `a` finishes the entry while client `b` claims it. -/
theorem finished_never_requeued_claimed :
    (Demo.closing.2.2.any (pops 3 ⟨"orders", "1-0"⟩) = true) ∧ Demo.closing.1.Over 3 ∧
      ⟨1, 0⟩ ∉ Demo.service.pending Demo.closing.1.state.server ∧
        ⟨1, 0⟩ ∉ Demo.service.stream Demo.closing.1.state.server := by
  have hpop : Demo.closing.2.2.any (pops 3 ⟨"orders", "1-0"⟩) = true := by decide +kernel
  have hover : Demo.closing.1.Over 3 := Pool.over_of_isOver (by decide +kernel)
  have hr : Pool.Run Demo.service.note
      (fun γ _ e ↦ Service.Public e ∧ LockKept ⟨1, 0⟩ "orders" γ e)
      (Demo.lockStep.2, (Demo.afterLock, [])) Demo.closing.1 Demo.closing.2 :=
    Pool.run_of_isSome (by decide +kernel)
  obtain ⟨c, f, hl, hdone⟩ : ∃ c f, Demo.closing.1.Live 3 c f ∧ Demo.isDoneStream f = true :=
    Pool.exists_live_of_any (by decide +kernel)
  cases f with
  | doneStream d =>
    exact ⟨hpop, hover, (finished_never_requeued Demo.service ⟨1, 0⟩ "orders" Demo.lockStep.2
      Demo.closing.1 Demo.afterLock Demo.closing.2 Demo.justLocked hr).2 3 c d hl hpop hover⟩
  | _ => cases hdone

end RedisStreamClient.Impl
