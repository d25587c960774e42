import RedisStreamClient.Lib.Log
import RedisStreamClient.Redis.StreamID
import RedisStreamClient.Notifs.LBSMsg

/-!
# The Redis server

The part of Redis the client uses: streams, consumer groups with their pending
entries lists, and the string keys of the distributed locks.  A stream is a `Log`
whose `top` is its last generated ID; the pending entries list of a group is a
`Log` whose `top` is the group's last delivered ID.  Each command is one atomic
step.  Time is a counter in milliseconds that the environment advances; the expiry
of a lock key is a step of its own.

The lock commands are those of `redsync` with one node: `lock` is `SET NX`,
`extend` is its script under `WithSetNXOnExtend`, `unlock` its compare-and-delete.
-/

namespace RedisStreamClient.Redis

open RedisStreamClient.Lib RedisStreamClient.Errs

/-- A pending entry: who got it, and when. -/
structure Pending where
  /-- The consumer it was delivered to. -/
  consumer : String
  /-- When it was delivered. -/
  deliveryTime : Nat
deriving DecidableEq, Repr

/-- `redis.XMessage`. -/
structure XMessage where
  /-- The entry's ID. -/
  id : String
  /-- Its fields. -/
  values : Values

/-- The state of the server. -/
structure Server where
  /-- The streams, by name. -/
  streams : String → Log StreamID Values
  /-- The pending entries lists, by stream and group. -/
  groups : String → String → Log StreamID Pending
  /-- The lock keys that exist, with their values. -/
  keys : String → Option String
  /-- Milliseconds. -/
  now : Nat

/-- The error reply to a malformed ID. -/
def invalidID : Err := .reply "ERR Invalid stream ID specified as stream command argument"

namespace Server

variable (s : Server)

/-- Replace a stream. -/
def setStream (stream : String) (l : Log StreamID Values) : Server :=
  { s with streams := Function.update s.streams stream l }

/-- Replace the pending entries list of a group. -/
def setGroup (stream group : String) (l : Log StreamID Pending) : Server :=
  { s with groups := Function.update s.groups stream (Function.update (s.groups stream) group l) }

theorem groups_setGroup (stream group name name' : String) (l : Log StreamID Pending) :
    (s.setGroup stream group l).groups name name' =
      if name = stream ∧ name' = group then l else s.groups name name' := by
  by_cases hs : name = stream
  · subst hs
    by_cases hg : name' = group
    · subst hg
      simp [setGroup]
    · simp [setGroup, hg]
  · simp [setGroup, hs]

/-- Set or delete a lock key. -/
def setKey (key : String) (v : Option String) : Server :=
  { s with keys := Function.update s.keys key v }

/-- An entry as a message. -/
def message (e : StreamID × Values) : XMessage := ⟨e.1.text, e.2⟩

/-- `XRANGE stream start stop`. -/
def xrange (stream start stop : String) : Except Err (List XMessage) :=
  match StreamID.lower? start, StreamID.upper? stop with
  | some lo, some hi =>
    .ok (((s.streams stream).entries.filter fun e ↦ lo e.1 && hi e.1).map message)
  | _, _ => .error invalidID

/-- `XACK stream group id`: how many entries left the pending entries list. -/
def xack (stream group id : String) : Except Err Int × Server :=
  match StreamID.ofText? id with
  | none => (.error invalidID, s)
  | some i =>
    if i ∈ s.groups stream group then
      (.ok 1, s.setGroup stream group ((s.groups stream group).erase i))
    else (.ok 0, s)

/-- `XDEL stream id`. -/
def xdel (stream id : String) : Except Err Int × Server :=
  match StreamID.ofText? id with
  | none => (.error invalidID, s)
  | some i =>
    if i ∈ s.streams stream then (.ok 1, s.setStream stream ((s.streams stream).erase i))
    else (.ok 0, s)

/-- `XADD stream [MAXLEN ~ maxLen] * values`: the server gives the entry a fresh ID.
With a cap it may drop the `trim` oldest entries, as long as `maxLen` remain. -/
def xadd (stream : String) (maxLen : Int) (values : Values) (newID : StreamID) (trim : Nat) :
    Option (Except Err String × Server) :=
  if h : (s.streams stream).top < newID then
    let l := (s.streams stream).push newID values h
    if trim = 0 ∨ (0 < maxLen ∧ maxLen + trim ≤ l.entries.length) then
      some (.ok newID.text, s.setStream stream (l.drop trim))
    else none
  else none

/-- `EXISTS key`. -/
def existsKey (key : String) : Except Err Int := .ok (if (s.keys key).isSome then 1 else 0)

/-- `XPENDING stream group [IDLE idle] start stop count`: the IDs of the first `count`
matching entries, in ID order. -/
def xpending (stream group : String) (idle : Nat) (start stop : String) (count : Int) :
    Except Err (List String) :=
  match StreamID.lower? start, StreamID.upper? stop with
  | some lo, some hi =>
    .ok ((((s.groups stream group).entries.filter fun e ↦
      lo e.1 && hi e.1 && decide (idle ≤ s.now - e.2.deliveryTime)).take count.toNat).map
        fun e ↦ e.1.text)
  | _, _ => .error invalidID

/-- The entries of a stream that a group has not been given yet. -/
def undelivered (stream group : String) : List (StreamID × Values) :=
  (s.streams stream).entries.filter fun e ↦ (s.groups stream group).top < e.1

/-- The undelivered entries as pending entries of a consumer. -/
def handedTo (stream group consumer : String) : List (StreamID × Pending) :=
  (s.undelivered stream group).map fun e ↦ (e.1, ⟨consumer, s.now⟩)

theorem handedTo_sorted (stream group consumer : String) :
    (s.handedTo stream group consumer).Pairwise fun a b ↦ a.1 < b.1 := by
  rw [handedTo, List.pairwise_map]
  exact (s.streams stream).sorted.filter _

theorem top_lt_of_mem_handedTo {stream group consumer : String} {e : StreamID × Pending}
    (h : e ∈ s.handedTo stream group consumer) : (s.groups stream group).top < e.1 := by
  obtain ⟨d, hd, rfl⟩ := List.mem_map.1 h
  simpa using (List.mem_filter.1 hd).2

/-- The pending entries list after every undelivered entry went to a consumer. -/
def deliver (stream group consumer : String) : Log StreamID Pending :=
  (s.groups stream group).append (s.handedTo stream group consumer)
    (s.handedTo_sorted stream group consumer) fun _ h ↦ s.top_lt_of_mem_handedTo h

/-- `XREADGROUP GROUP group consumer BLOCK 0 STREAMS stream >`: hand the undelivered
entries to a consumer.  Without any the command blocks. -/
def xreadGroup (group consumer stream : String) :
    Option (Except Err (List (String × List XMessage)) × Server) :=
  if s.undelivered stream group = [] then none
  else some (.ok [(stream, (s.undelivered stream group).map message)],
    s.setGroup stream group (s.deliver stream group consumer))

/-- A lookup by the full text of an entry finds that entry, if it is there. -/
theorem xrange_text (stream : String) (i : StreamID) :
    s.xrange stream i.text i.text =
      .ok (((s.streams stream).lookup i).toList.map fun v ↦ ⟨i.text, v⟩) := by
  have hfilter : ((s.streams stream).entries.filter fun e ↦ decide (i ≤ e.1) && decide (e.1 ≤ i)) =
      ((s.streams stream).lookup i).toList.map fun v ↦ (i, v) := by
    rw [← Log.filter_key]
    apply List.filter_congr
    intro e _
    rw [← Bool.decide_and, decide_eq_decide, and_comm, ← le_antisymm_iff]
  rw [xrange, StreamID.lower?_text, StreamID.upper?_text]
  dsimp only
  rw [hfilter, List.map_map]
  rfl

/-- A lookup by the text of one entry finds that entry, if it is there, or else a later
one. -/
theorem xrange_head {stream id : String} {m : XMessage} {ms : List XMessage} {i : StreamID}
    (h : s.xrange stream id id = .ok (m :: ms)) (hi : StreamID.ofText? id = some i) :
    i ≤ (s.streams stream).top ∧ ∀ v, (s.streams stream).lookup i = some v → v = m.values := by
  obtain ⟨hi', hup, hadm⟩ := StreamID.upper?_of_ofText? hi
  rw [xrange, StreamID.lower?_of_ofText? hi, hup] at h
  have hmap := Except.ok.inj h
  generalize hf : (s.streams stream).entries.filter (fun e ↦ decide (i ≤ e.1) && hi' e.1) = es
    at hmap
  cases es with
  | nil => simp at hmap
  | cons e es =>
    obtain ⟨rfl, -⟩ := List.cons.inj hmap
    have he : e ∈ (s.streams stream).entries ∧ (decide (i ≤ e.1) && hi' e.1) = true :=
      List.mem_filter.1 (hf ▸ List.mem_cons_self)
    have hie : i ≤ e.1 := by simpa using (Bool.and_eq_true_iff.1 he.2).1
    refine ⟨hie.trans ((s.streams stream).le_top e he.1), ?_⟩
    intro v hv
    have hmem := Log.lookup_eq_some_iff.1 hv
    have hes : (i, v) ∈ e :: es := by
      rw [← hf, List.mem_filter]
      exact ⟨hmem, by simp [hadm]⟩
    have hsorted : (e :: es).Pairwise fun a b ↦ a.1 < b.1 := by
      rw [← hf]
      exact (s.streams stream).sorted.filter _
    rcases List.mem_cons.1 hes with rfl | hlater
    · rfl
    · exact absurd ((List.pairwise_cons.1 hsorted).1 _ hlater) hie.not_gt

/-- A lookup by a text of an entry that is there finds it first. -/
theorem xrange_of_lookup {stream id : String} {i : StreamID} {v : Values}
    (hi : StreamID.ofText? id = some i) (hv : (s.streams stream).lookup i = some v) :
    ∃ m ms, s.xrange stream id id = .ok (m :: ms) ∧ m.values = v := by
  obtain ⟨hi', hup, hadm⟩ := StreamID.upper?_of_ofText? hi
  have hx : s.xrange stream id id = .ok (((s.streams stream).entries.filter fun e ↦
      decide (i ≤ e.1) && hi' e.1).map message) := by
    rw [xrange, StreamID.lower?_of_ofText? hi, hup]
  have hmem : (i, v) ∈ (s.streams stream).entries.filter fun e ↦ decide (i ≤ e.1) && hi' e.1 := by
    rw [List.mem_filter]
    exact ⟨Log.lookup_eq_some_iff.1 hv, by simp [hadm]⟩
  obtain ⟨m, ms, hms⟩ := List.exists_cons_of_ne_nil
    (List.ne_nil_of_mem (List.mem_map_of_mem (f := message) hmem))
  rw [hms] at hx
  exact ⟨m, ms, hx, ((s.xrange_head hx hi).2 v hv).symm⟩

/-- What `XPENDING` names are pending entries, by their full text. -/
theorem exists_of_mem_xpending {stream group start stop id : String} {idle : Nat} {count : Int}
    {ids : List String} (h : s.xpending stream group idle start stop count = .ok ids)
    (hid : id ∈ ids) : ∃ i ∈ s.groups stream group, id = i.text := by
  unfold xpending at h
  split at h
  · obtain rfl := Except.ok.inj h
    obtain ⟨e, he, rfl⟩ := List.mem_map.1 hid
    exact ⟨e.1, ⟨e.2, List.mem_of_mem_filter (List.mem_of_mem_take he)⟩, rfl⟩
  · cases h

/-! ## What the commands that write can do -/

/-- An acknowledgement takes an entry off the list, or changes nothing. -/
theorem xack_cases (stream group id : String) :
    (∃ i, StreamID.ofText? id = some i ∧ i ∈ s.groups stream group ∧
      s.xack stream group id = (.ok 1, s.setGroup stream group ((s.groups stream group).erase i))) ∨
    ((∀ i, StreamID.ofText? id = some i → i ∉ s.groups stream group) ∧
      (s.xack stream group id).2 = s ∧
        ((s.xack stream group id).1 = .ok 0 ∨ (s.xack stream group id).1 = .error invalidID)) := by
  unfold xack
  cases hi : StreamID.ofText? id with
  | none => exact .inr ⟨by simp, rfl, .inr rfl⟩
  | some i =>
    by_cases hm : i ∈ s.groups stream group
    · exact .inl ⟨i, rfl, hm, by simp [hm]⟩
    · exact .inr ⟨by simpa using hm, by simp [hm], .inl (by simp [hm])⟩

/-- A deletion removes an entry, or changes nothing. -/
theorem xdel_cases (stream id : String) :
    (∃ i, StreamID.ofText? id = some i ∧ i ∈ s.streams stream ∧
      s.xdel stream id = (.ok 1, s.setStream stream ((s.streams stream).erase i))) ∨
    ((∀ i, StreamID.ofText? id = some i → i ∉ s.streams stream) ∧ (s.xdel stream id).2 = s) := by
  unfold xdel
  cases hi : StreamID.ofText? id with
  | none => exact .inr ⟨by simp, rfl⟩
  | some i =>
    by_cases hm : i ∈ s.streams stream
    · exact .inl ⟨i, rfl, hm, by simp [hm]⟩
    · exact .inr ⟨by simpa using hm, by simp [hm]⟩

/-- An acknowledgement by the full text of an entry is not refused. -/
theorem exists_xack_text (stream group : String) (i : StreamID) :
    ∃ n, (s.xack stream group i.text).1 = .ok n := by
  rw [xack, StreamID.ofText?_text]
  dsimp only
  split
  · exact ⟨1, rfl⟩
  · exact ⟨0, rfl⟩

/-- A deletion by the full text of an entry is not refused. -/
theorem exists_xdel_text (stream : String) (i : StreamID) :
    ∃ n, (s.xdel stream i.text).1 = .ok n := by
  rw [xdel, StreamID.ofText?_text]
  dsimp only
  split
  · exact ⟨1, rfl⟩
  · exact ⟨0, rfl⟩

/-- An uncapped addition puts one entry on top. -/
theorem xadd_uncapped {s s' : Server} {stream : String} {v : Values} {newID : StreamID}
    {trim : Nat} {r : Except Err String} (h : s.xadd stream 0 v newID trim = some (r, s')) :
    ∃ hlt : (s.streams stream).top < newID,
      s' = s.setStream stream ((s.streams stream).push newID v hlt) ∧ r = .ok newID.text := by
  unfold xadd at h
  split at h
  · next hlt =>
    simp only [lt_irrefl, false_and, or_false] at h
    split at h
    · next ht =>
      subst ht
      obtain ⟨rfl, rfl⟩ := Prod.mk.inj (Option.some.inj h)
      exact ⟨hlt, rfl, rfl⟩
    · simp at h
  · simp at h

/-- An addition replaces one stream, and is answered by the new ID. -/
theorem xadd_eq {s s' : Server} {stream : String} {maxLen : Int} {v : Values}
    {newID : StreamID} {trim : Nat} {r : Except Err String}
    (h : s.xadd stream maxLen v newID trim = some (r, s')) :
    (∃ l, s' = s.setStream stream l) ∧ r = .ok newID.text := by
  unfold xadd at h
  split at h
  · dsimp only at h
    split at h
    · obtain ⟨rfl, rfl⟩ := Prod.mk.inj (Option.some.inj h)
      exact ⟨⟨_, rfl⟩, rfl⟩
    · simp at h
  · simp at h

/-- An addition to one stream leaves the others alone. -/
theorem xadd_other {s s' : Server} {stream : String} {maxLen : Int} {v : Values}
    {newID : StreamID} {trim : Nat} {r : Except Err String}
    (h : s.xadd stream maxLen v newID trim = some (r, s')) :
    s'.groups = s.groups ∧ ∀ name, name ≠ stream → s'.streams name = s.streams name := by
  obtain ⟨⟨l, rfl⟩, -⟩ := xadd_eq h
  exact ⟨rfl, fun name hne ↦ by simp [setStream, Function.update_of_ne hne]⟩

/-- An addition raises the top of its stream, also where old entries are dropped. -/
theorem xadd_top {s s' : Server} {stream : String} {maxLen : Int} {v : Values}
    {newID : StreamID} {trim : Nat} {r : Except Err String}
    (h : s.xadd stream maxLen v newID trim = some (r, s')) :
    (s.streams stream).top < (s'.streams stream).top := by
  unfold xadd at h
  split at h
  · next hlt =>
    dsimp only at h
    split at h
    · obtain ⟨rfl, rfl⟩ := Prod.mk.inj (Option.some.inj h)
      simpa [setStream] using hlt
    · simp at h
  · simp at h

/-- An addition leaves the keys alone. -/
theorem xadd_keys {s s' : Server} {stream : String} {maxLen : Int} {v : Values}
    {newID : StreamID} {trim : Nat} {r : Except Err String}
    (h : s.xadd stream maxLen v newID trim = some (r, s')) : s'.keys = s.keys := by
  obtain ⟨⟨l, rfl⟩, -⟩ := xadd_eq h
  rfl

/-- An addition is always possible. -/
theorem exists_xadd (stream : String) (maxLen : Int) (v : Values) :
    ∃ newID r s', s.xadd stream maxLen v newID 0 = some (r, s') := by
  obtain ⟨i, hi⟩ := StreamID.exists_gt (s.streams stream).top
  exact ⟨i, _, _, by rw [xadd, dif_pos hi]; exact if_pos (.inl rfl)⟩

/-! ## Locks -/

/-- `Lock`: take the key if it is free. The `redsync` library makes up to 32 tries. After one
that fails it deletes the key if it holds the value of the mutex, and waits. A try that fails
changes nothing else, so the last one stands for all. A deletion, after which a later try
finds the key free, is a run in which the key expires before `lock`. -/
def lock (key value : String) : Option Err × Server :=
  match s.keys key with
  | none => (none, s.setKey key (some value))
  | some _ => (some .lockTaken, s)

/-- `Extend` under `WithSetNXOnExtend`: refresh the key under this value, set it again
if it is gone, fail if it holds another value. -/
def extend (key value : String) : (Bool × Option Err) × Server :=
  match s.keys key with
  | none => ((true, none), s.setKey key (some value))
  | some v => if v = value then ((true, none), s) else ((false, some .lockTaken), s)

/-- `Unlock`: delete the key under this value. -/
def unlock (key value : String) : (Bool × Option Err) × Server :=
  match s.keys key with
  | none => ((false, some .lockAlreadyExpired), s)
  | some v =>
    if v = value then ((true, none), s.setKey key none) else ((false, some .lockTaken), s)

theorem lock_cases (key value : String) :
    (s.keys key = none ∧ s.lock key value = (none, s.setKey key (some value))) ∨
      (∃ v, s.keys key = some v ∧ s.lock key value = (some .lockTaken, s)) := by
  unfold lock
  cases hk : s.keys key with
  | none => exact .inl ⟨rfl, rfl⟩
  | some v => exact .inr ⟨v, rfl, rfl⟩

theorem extend_cases (key value : String) :
    (s.keys key = none ∧ s.extend key value = ((true, none), s.setKey key (some value))) ∨
      (s.keys key = some value ∧ s.extend key value = ((true, none), s)) ∨
        ∃ v, s.keys key = some v ∧ v ≠ value ∧
          s.extend key value = ((false, some .lockTaken), s) := by
  unfold extend
  cases hk : s.keys key with
  | none => exact .inl ⟨rfl, rfl⟩
  | some v =>
    by_cases hv : v = value
    · subst hv
      exact .inr (.inl ⟨rfl, by simp⟩)
    · exact .inr (.inr ⟨v, rfl, hv, by simp [hv]⟩)

theorem unlock_cases (key value : String) :
    (s.keys key = some value ∧ s.unlock key value = ((true, none), s.setKey key none)) ∨
      (s.keys key ≠ some value ∧ (s.unlock key value).2 = s) := by
  unfold unlock
  cases hk : s.keys key with
  | none => exact .inr ⟨by simp, rfl⟩
  | some v =>
    by_cases hv : v = value
    · subst hv
      exact .inl ⟨rfl, by simp⟩
    · exact .inr ⟨by simpa using hv, by simp [hv]⟩

end Server

end RedisStreamClient.Redis
