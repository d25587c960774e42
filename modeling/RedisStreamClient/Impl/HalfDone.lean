import RedisStreamClient.Impl.Backoff
import RedisStreamClient.Impl.Spelling

/-!
# A `DoneStream` that fails

`DoneStream` takes the record of its stream out of `streamLocks`, then acknowledges, deletes
and unlocks.  Once the acknowledgement has gone through, the entry is off the pending list,
whatever fails later.  If the acknowledgement itself fails, the entry stays pending and the
record is gone.
-/

namespace RedisStreamClient.Impl

open RedisStreamClient.Lib RedisStreamClient.Errs RedisStreamClient.Notifs
open RedisStreamClient.Redis

/-- An operation of client `c`, resolved as `ch` says. -/
def World.performs (c : Nat) (ch : Op → Choice) (o : Op) (w : World) : Option (o.Reply × World) :=
  (w.exec c o (ch o)).map fun p ↦ (p.1, p.2.1)

/-- The LBS entry of a recorded stream is pending. -/
def Unacked (r : Client) (w : World) (info : StreamLocksInfo) : Prop :=
  ∃ i, StreamID.ofText? info.lbsInfo.idInLBS = some i ∧ i ∈ w.server.groups r.lbsName r.lbsGroupName

/-- The client has the record of a stream. -/
def Recorded (c : Nat) (w : World) (name : String) (info : StreamLocksInfo) : Prop :=
  (w.clients c).streamLocks.lookup name = some info

/-- The operations that follow the acknowledgement. -/
def Op.followsAck : Op → Bool
  | .xdel _ _ | .unlock _ | .record _ => true
  | _ => false

section

variable {c : Nat} {ch : Op → Choice} {r : Client} {w w' : World} {info : StreamLocksInfo}
  {name : String}

theorem World.exists_exec_of_performs {o : Op} {reply : o.Reply}
    (h : w.performs c ch o = some (reply, w')) : ∃ f, w.exec c o (ch o) = some (reply, w', f) := by
  obtain ⟨⟨reply', w₁, f⟩, hx, heq⟩ := Option.map_eq_some_iff.1 h
  obtain ⟨rfl, rfl⟩ := Prod.mk.inj heq
  exact ⟨f, hx⟩

/-- What follows the acknowledgement leaves the pending lists alone. -/
theorem World.performs_groups {o : Op} {reply : o.Reply} (ho : o.followsAck = true)
    (h : w.performs c ch o = some (reply, w')) : w'.server.groups = w.server.groups := by
  obtain ⟨f, hx⟩ := exists_exec_of_performs h
  rcases exec_frame hx with hsame | ⟨s, n, v, rfl⟩ | ⟨s, i, rfl⟩ | ⟨s, g, i, rfl⟩ | ⟨g, n, s, rfl⟩
  · exact hsame.2
  · cases ho
  · obtain ⟨-, ⟨-, rfl, -⟩ | ⟨-, rfl, -⟩⟩ := exec_xdel hx
    · rfl
    · rcases w.server.xdel_cases s i with ⟨j, -, -, heq⟩ | ⟨-, heq⟩
      · rw [server_setServer, heq]
        rfl
      · rw [server_setServer, heq]
  · cases ho
  · cases ho

/-- An `XACK` that goes through takes the entry off the pending list. -/
theorem not_unacked_xack {s : Server} :
    ¬ Unacked r (w.setServer (s.xack r.lbsName r.lbsGroupName info.lbsInfo.idInLBS).2) info := by
  rintro ⟨i, hi, hmem⟩
  rw [World.server_setServer] at hmem
  rcases s.xack_cases r.lbsName r.lbsGroupName info.lbsInfo.idInLBS with
    ⟨j, hj, -, heq⟩ | ⟨hno, heq, -⟩
  · obtain rfl := Option.some.inj (hi.symm.trans hj)
    rw [heq, Server.groups_setGroup, if_pos ⟨rfl, rfl⟩, Log.mem_erase] at hmem
    exact hmem.2 rfl
  · rw [heq] at hmem
    exact hno i hi hmem

end

/-- **A failed `DoneStream` can be repeated unless its acknowledgement failed.**  Whatever the
client's state, if `DoneStream` of a recorded stream returns an error, where commands fail
without effect, then the entry is no longer pending or the record is still there, iff the entry
was not pending at the call or the `XACK` did not fail. -/
theorem doneStream_repeatable_iff {r : Client} {c : Nat} {ch : Op → Choice}
    (hch : ∀ o e, (ch o).fault ≠ .lost e) {w w' : World} {name : String} {info : StreamLocksInfo}
    {err : Err} (hrec : Recorded c w name info)
    (hrun : (doneStream r name).evalOn (fun o w ↦ w.performs c ch o) w = some (some err, w')) :
    (¬ Unacked r w' info ∨ Recorded c w' name info) ↔
      (Unacked r w info →
        (ch (.xack r.lbsName r.lbsGroupName info.lbsInfo.idInLBS)).fault = .none) := by
  obtain ⟨⟨record, w₁⟩, hpop, hrest⟩ := Option.bind_eq_some_iff.1 hrun
  obtain ⟨f, hpop⟩ := World.exists_exec_of_performs hpop
  obtain ⟨hrecord, rfl⟩ := World.exec_popStreamLocksInfo hpop
  obtain rfl : record = some info := hrecord.trans hrec
  obtain ⟨⟨reply, w₂⟩, hack, hrest⟩ := Option.bind_eq_some_iff.1 hrest
  obtain ⟨f, hack⟩ := World.exists_exec_of_performs hack
  obtain ⟨-, ⟨heff, rfl, e, rfl⟩ | ⟨-, rfl, ⟨hfault, -⟩ | ⟨e, he, -⟩⟩⟩ := World.exec_xack hack
  · -- the acknowledgement fails: the record is gone, and the server is as it was
    obtain ⟨-, rfl⟩ := Prod.mk.inj (Option.some.inj hrest)
    have hfault : (ch (.xack r.lbsName r.lbsGroupName info.lbsInfo.idInLBS)).fault ≠ .none := by
      intro h
      rw [Choice.effective, h] at heff
      cases heff
    have hgone : ¬ Recorded c (w.setClient c { w.clients c with
        streamLocks := (w.clients c).streamLocks.erase name }) name info := by
      simp [Recorded, World.setClient]
    rw [or_iff_left hgone]
    exact ⟨fun hno h ↦ absurd h hno, fun h hun ↦ hfault (h hun)⟩
  · refine iff_of_true (.inl ?_) fun _ ↦ hfault
    refine Prog.evalOn_keeps (P := fun o : Op ↦ o.followsAck = true)
      (I := fun w ↦ ¬ Unacked r w info) ?_ ?_ hrest not_unacked_xack
    · rintro o s reply' s' ho hstep hno ⟨i, hi, hmem⟩
      rw [World.performs_groups ho hstep] at hmem
      exact hno ⟨i, hi, hmem⟩
    · rcases reply with e | n
      · trivial
      · refine ⟨rfl, ?_⟩
        rintro (e | n)
        · trivial
        · refine Prog.Only.bind (p := Op.unlockMutex info.redsyncMutex) ⟨rfl, fun _ ↦ trivial⟩ ?_
          rintro ⟨unlocked, err⟩
          split
          · exact ⟨rfl, fun _ ↦ ⟨rfl, fun _ ↦ trivial⟩⟩
          · exact ⟨rfl, fun _ ↦ ⟨rfl, fun _ ↦ trivial⟩⟩
          · exact ⟨rfl, fun _ ↦ trivial⟩
  · exact absurd he (hch _ e)

namespace Demo

/-- The record of the entry `1-0` for the data stream "orders". -/
def ordersRecord : StreamLocksInfo :=
  ⟨⟨"orders", "1-0"⟩, ⟨(LBSInfo.mk "orders" "1-0").formMutexKey, "a"⟩, ∅⟩

theorem top_lt_first : (Log.empty .zero : Log StreamID Pending).top < ⟨1, 0⟩ := by decide

/-- A client that was handed the entry `1-0` and has recorded it. -/
def taken : World where
  server := ⟨fun _ ↦ .empty .zero, fun _ _ ↦ (Log.empty .zero).push ⟨1, 0⟩ ⟨"a", 0⟩ top_lt_first,
    fun _ ↦ none, 0⟩
  clients _ := ⟨Finmap.singleton "orders" ordersRecord, false, .new 1⟩

/-- The commands that `fails` tells do fail. -/
def failWhere (fails : Op → Bool) (o : Op) : Choice :=
  ⟨if fails o then .fail (.reply "connection refused") else .none, .zero, 0, .input⟩

theorem failWhere_ne_lost (fails : Op → Bool) (o : Op) (e : Err) :
    (failWhere fails o).fault ≠ .lost e := by
  rw [failWhere]
  split <;> simp

theorem recorded_taken : Recorded 0 taken "orders" ordersRecord := Finmap.lookup_singleton_eq

theorem unacked_taken : Unacked (reader 0 1 1) taken ordersRecord :=
  ⟨⟨1, 0⟩, by decide +kernel, by decide +kernel⟩

/-- The `XDEL`s. -/
def isXdel : Op → Bool
  | .xdel _ _ => true
  | _ => false

/-- `DoneStream` of "orders" on its own, with these commands failing. -/
def finishOrders (fails : Op → Bool) (w : World) : Option (Option Err × World) :=
  (doneStream (reader 0 1 1) "orders").evalOn (fun o w ↦ w.performs 0 (failWhere fails) o) w

end Demo

/-- If the deletion fails, the entry is off the pending list or still recorded. -/
theorem doneStream_repeatable_xdel :
    ∃ w', Demo.finishOrders Demo.isXdel Demo.taken =
        some (some (.redis .delStream (.reply "connection refused")), w') ∧
      (¬ Unacked (Demo.reader 0 1 1) w' Demo.ordersRecord ∨
        Recorded 0 w' "orders" Demo.ordersRecord) :=
  ⟨_, rfl, (doneStream_repeatable_iff (Demo.failWhere_ne_lost Demo.isXdel) Demo.recorded_taken
    rfl).2 fun _ ↦ rfl⟩

/-- If the acknowledgement fails, the entry stays pending, the record is gone, and another
`DoneStream` does not find it. -/
theorem doneStream_not_repeatable :
    ∃ w', Demo.finishOrders Op.isXack Demo.taken =
        some (some (.redis .ackStream (.reply "connection refused")), w') ∧
      Unacked (Demo.reader 0 1 1) w' Demo.ordersRecord ∧
      (∀ info, ¬ Recorded 0 w' "orders" info) ∧
      (Demo.finishOrders (fun _ ↦ false) w').map Prod.fst = some (some .dataStreamNotFound) := by
  refine ⟨_, rfl, Demo.unacked_taken, ?_, rfl⟩
  intro info
  simp [Recorded, World.setClient]

end RedisStreamClient.Impl
