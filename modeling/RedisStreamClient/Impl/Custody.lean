import RedisStreamClient.Impl.Extender
import RedisStreamClient.Impl.Handout
import RedisStreamClient.Impl.MutexKey

/-!
# The custody of an entry

From the moment its reader locks it, an entry is in the hands of one goroutine after the other:
the reader until the entry is recorded, the reader and then the extender that `tends` the record,
and the `DoneStream` that `holds` it once it is popped.  What each step does to who has an entry,
to the lock keys and to the pending list of the group is said here once, for the operations of
one goroutine; what follows for a whole client is up to the modules that run them.
-/

namespace RedisStreamClient.Impl

open RedisStreamClient.Lib RedisStreamClient.Errs RedisStreamClient.Notifs
open RedisStreamClient.Redis

/-! ## Sessions -/

namespace Session

/-- The entry that a reader has locked and not recorded yet. -/
def locks : Session → Option LBSInfo
  | .locked message name _ => some ⟨name, message.id⟩
  | _ => none

/-- The record that a `DoneStream` has popped and is not through with. -/
def holds : Session → Option StreamLocksInfo
  | .popped info | .acked info | .deleted info => some info
  | _ => none

/-- The record of an extender that is on its way out. -/
def parts : Session → Option StreamLocksInfo
  | .disowned info | .leaving info | .clearing info => some info
  | _ => none

variable {J : Json} {r : Client} {q : Session} {o : Op}

theorem tends_of_parts {info : StreamLocksInfo} (h : q.parts = some info) :
    q.tends = some info := by
  cases q <;> first | exact h | cases h

theorem role_of_parts {info : StreamLocksInfo} (h : q.parts = some info) : q.role = .extender := by
  cases q <;> first | rfl | cases h

theorem role_of_holds {info : StreamLocksInfo} (h : q.holds = some info) : q.role = .finisher := by
  cases q <;> first | rfl | cases h

theorem role_of_locks {l : LBSInfo} (h : q.locks = some l) : q.role = .reader := by
  cases q <;> first | rfl | cases h

/-- What a reader has locked waits with it. -/
theorem mem_waits_of_locks {l : LBSInfo} (h : q.locks = some l) : l.idInLBS ∈ q.waits := by
  cases q with
  | locked message name todo =>
    obtain rfl := Option.some.inj h
    exact List.mem_cons_self
  | _ => cases h

/-- **What a reader has locked it had locked before, or has just locked.** -/
theorem locks_next (hok : q.Ok J r o) {reply : o.Reply} {l : LBSInfo}
    (h : (q.next J r o reply).locks = some l) :
    q.locks = some l ∨
      (⟨o, reply⟩ : Act) = ⟨.lock ⟨l.formMutexKey, r.consumerID⟩, none⟩ := by
  have hrole : q.role = .reader := (role_next hok reply).symm.trans (role_of_locks h)
  rcases reader_cases hrole hok reply with ⟨-, -, hsame⟩ | ⟨rfl, g, n, s, rfl⟩ |
    ⟨message, name, todo, rfl, hname, rfl⟩ | ⟨message, name, todo, info, rfl, hinfo, -, rfl⟩ |
    ⟨info, todo, ctx, rfl, rfl⟩ | ⟨info, todo, rfl | rfl, rfl⟩
  · exact .inl (hsame ▸ h)
  · rcases reply with _ | _ <;> cases h
  · rcases reply with _ | err
    · simp only [next, onLock, hname] at h
      obtain rfl := Option.some.inj h
      exact .inr rfl
    · cases h
  · cases h
  · cases h
  · cases h
  · cases h

/-- **What `DoneStream` holds it held before, or has just popped.** -/
theorem holds_next (hok : q.Ok J r o) {reply : o.Reply} {info : StreamLocksInfo}
    (h : (q.next J r o reply).holds = some info) :
    q.holds = some info ∨
      (q = .finishing ∧ ∃ name, (⟨o, reply⟩ : Act) = ⟨.popStreamLocksInfo name, some info⟩) := by
  have hrole : q.role = .finisher := (role_next hok reply).symm.trans (role_of_holds h)
  rcases finisher_cases hrole hok reply with ⟨-, hsame⟩ | ⟨rfl, name, rfl⟩ |
    ⟨info', s, g, rfl, rfl⟩ | ⟨info', s, rfl, rfl⟩ | ⟨info', rfl, rfl⟩
  · exact .inl (hsame ▸ h)
  · rcases reply with _ | info'
    · cases h
    · obtain rfl := Option.some.inj h
      exact .inr ⟨rfl, name, rfl⟩
  · rcases reply with _ | _
    · cases h
    · exact .inl h
  · rcases reply with _ | _
    · cases h
    · exact .inl h
  · cases h

/-- **How an extender comes to leave**: its context is done, its record is gone, or an extension
failed. -/
theorem parts_next (hok : q.Ok J r o) {reply : o.Reply} {info : StreamLocksInfo}
    (h : (q.next J r o reply).parts = some info) :
    q.parts = some info ∨
      (q.tends = some info ∧ ((⟨o, reply⟩ : Act) = ⟨.isContextDone, true⟩ ∨
        (⟨o, reply⟩ : Act) = ⟨.isStreamProcessingDone info.lbsInfo.dataStreamName, true⟩ ∨
          ∃ res, res ≠ (true, none) ∧
            (⟨o, reply⟩ : Act) = ⟨.extend info.redsyncMutex, res⟩)) := by
  have hrole : q.role = .extender := (role_next hok reply).symm.trans (role_of_parts h)
  rcases extender_cases hrole hok reply with ⟨-, -, hsame⟩ | ⟨info, rfl, rfl⟩ |
    ⟨info, rfl | rfl | rfl, rfl⟩ | ⟨info, rfl, rfl⟩ | ⟨info, rfl, rfl⟩
  · exact .inl (hsame ▸ h)
  · rcases reply with _ | _
    · cases h
    · exact .inr ⟨h, .inl rfl⟩
  · rcases reply with _ | _
    · cases h
    · obtain rfl := Option.some.inj h
      exact .inr ⟨rfl, .inr (.inl rfl)⟩
  · rcases reply with _ | _ <;> exact .inl h
  · rcases reply with _ | _ <;> exact .inl h
  · rcases reply with ⟨_ | _, _ | err⟩
    · obtain rfl := Option.some.inj h
      exact .inr ⟨rfl, .inr (.inr ⟨(false, none), by simp, rfl⟩)⟩
    · obtain rfl := Option.some.inj h
      exact .inr ⟨rfl, .inr (.inr ⟨(false, some err), by simp, rfl⟩)⟩
    · cases h
    · obtain rfl := Option.some.inj h
      exact .inr ⟨rfl, .inr (.inr ⟨(true, some err), by simp, rfl⟩)⟩
  · exact .inl h

end Session

/-! ## Keys -/

/-- The IDs of entries that were handed out do not contain the separator of lock keys. -/
theorem Client.HandedOut.not_mem {r : Client} {s : Server} {id : String} (h : r.HandedOut s id) :
    '>' ∉ id.toList := by
  obtain ⟨i, rfl, -⟩ := h
  exact StreamID.not_mem_text i

/-- Entries that were handed out have the same key only if they are the same. -/
theorem Client.HandedOut.key_inj {r : Client} {s : Server} {l l' : LBSInfo}
    (hl : r.HandedOut s l.idInLBS) (hl' : r.HandedOut s l'.idInLBS)
    (h : l.formMutexKey = l'.formMutexKey) : l = l' :=
  formMutexKey_inj l l' hl.not_mem hl'.not_mem h

namespace World

variable {c : Nat} {o : Op} {ch : Choice} {w w' : World} {f : Option Call}

/-- A lock that is taken holds the key under its value. -/
theorem exec_lock_held {m : RedsyncMutex} (h : exec c (.lock m) ch w = some (none, w', f)) :
    w'.server.keys m.name = some m.value := by
  obtain ⟨-, ⟨-, -, e, he⟩ | ⟨-, rfl, ⟨-, hr⟩ | ⟨e, -, he⟩⟩⟩ := exec_lock h
  · cases he
  · rcases w.server.lock_cases m.name m.value with ⟨-, heq⟩ | ⟨v, -, heq⟩
    · rw [server_setServer, heq]
      simp [Server.setKey]
    · rw [heq] at hr
      cases hr
  · cases he

/-- Without a fault, an extension fails only if somebody else has the key. -/
theorem exec_extend_failed {m : RedsyncMutex} {res : Bool × Option Err} (hch : ch.fault = .none)
    (h : exec c (.extend m) ch w = some (res, w', f)) (hres : res ≠ (true, none)) :
    w.server.keys m.name ≠ some m.value := by
  obtain ⟨-, ⟨heff, -⟩ | ⟨-, -, ⟨-, hr⟩ | ⟨e, he, -⟩⟩⟩ := exec_extend h
  · simp [Choice.effective, hch] at heff
  · rcases w.server.extend_cases m.name m.value with ⟨hk, -⟩ | ⟨-, heq⟩ | ⟨v, hk, hv, -⟩
    · simp [hk]
    · rw [heq] at hr
      exact absurd hr hres
    · simpa [hk] using hv
  · rw [hch] at he
    cases he

/-- Only the environment moves the context. -/
theorem exec_ctxDone {reply : o.Reply} (h : exec c o ch w = some (reply, w', f)) (d : Nat) :
    (w'.clients d).ctxDone = (w.clients d).ctxDone := by
  rcases exec_clients h with heq | ⟨n, i, rfl⟩ | ⟨n, rfl⟩ | ⟨b, b', rfl, rfl⟩
  · rw [heq]
  · rw [exec_putStreamLocks h]
    exact field_setClient Local.ctxDone (by rfl) d
  · rw [(exec_popStreamLocksInfo h).2]
    exact field_setClient Local.ctxDone (by rfl) d
  · exact field_setClient Local.ctxDone (by rfl) d

/-- Without a fault, a lock is refused only if its key is held. -/
theorem exec_lock_refused {m : RedsyncMutex} {reply : Option Err} (hch : ch.fault = .none)
    (h : exec c (.lock m) ch w = some (reply, w', f)) (hr : reply ≠ none) :
    ∃ v, w.server.keys m.name = some v := by
  obtain ⟨-, ⟨heff, -⟩ | ⟨-, -, ⟨-, rfl⟩ | ⟨e, he, -⟩⟩⟩ := exec_lock h
  · simp [Choice.effective, hch] at heff
  · rcases w.server.lock_cases m.name m.value with ⟨-, heq⟩ | ⟨v, hv, -⟩
    · rw [heq] at hr
      exact absurd rfl hr
    · exact ⟨v, hv⟩
  · rw [hch] at he
    cases he

end World

end RedisStreamClient.Impl
