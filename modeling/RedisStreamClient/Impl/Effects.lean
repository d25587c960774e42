import RedisStreamClient.Impl.History

/-!
# What an operation does to the world

Inversion lemmas for `World.exec`: one for commands under a fault, one for each
command that writes to a stream, a pending list or a lock, and frame lemmas that say
which operations touch which part of the world at all.
-/

namespace RedisStreamClient.Impl

open RedisStreamClient.Lib RedisStreamClient.Errs RedisStreamClient.Notifs
open RedisStreamClient.Redis

namespace World

variable {w w' : World} {c : Nat} {ch : Choice}

@[simp] theorem server_setServer {s : Server} : (w.setServer s).server = s := rfl

@[simp] theorem clients_setServer {s : Server} : (w.setServer s).clients = w.clients := rfl

@[simp] theorem server_setClient {l : Local} : (w.setClient c l).server = w.server := rfl

/-- A command fails without effect, or runs, and its reply may be lost. -/
theorem command_cases {α : Type} {err : Err → α} {run : Server → Option (α × Server)} {r : α}
    {f : Option Call} (h : w.command ch.fault err run = some (r, w', f)) :
    f = none ∧ ((ch.effective = false ∧ w' = w ∧ ∃ e, r = err e) ∨
      ch.effective = true ∧ ∃ r' s, run w.server = some (r', s) ∧ w' = w.setServer s ∧
        ((ch.fault = .none ∧ r = r') ∨ ∃ e, ch.fault = .lost e ∧ r = err e)) := by
  unfold command at h
  split at h
  · next hf =>
    simp only [Option.map_eq_some_iff, Prod.mk.injEq] at h
    obtain ⟨p, hp, rfl, rfl, rfl⟩ := h
    exact ⟨rfl, .inr ⟨by simp [Choice.effective, hf], _, _, hp, rfl, .inl ⟨hf, rfl⟩⟩⟩
  · next e hf =>
    simp only [Option.some.injEq, Prod.mk.injEq] at h
    obtain ⟨rfl, rfl, rfl⟩ := h
    exact ⟨rfl, .inl ⟨by simp [Choice.effective, hf], rfl, e, rfl⟩⟩
  · next e hf =>
    simp only [Option.map_eq_some_iff, Prod.mk.injEq] at h
    obtain ⟨p, hp, rfl, rfl, rfl⟩ := h
    exact ⟨rfl, .inr ⟨by simp [Choice.effective, hf], _, _, hp, rfl, .inr ⟨e, hf, rfl⟩⟩⟩

/-- A command leaves the clients alone. -/
theorem command_clients {α : Type} {err : Err → α} {run : Server → Option (α × Server)} {r : α}
    {f : Option Call} (h : w.command ch.fault err run = some (r, w', f)) :
    w'.clients = w.clients := by
  obtain ⟨-, ⟨-, rfl, -⟩ | ⟨-, r', s, -, rfl, -⟩⟩ := command_cases h <;> rfl

/-- A command that always runs. -/
theorem command_some {α : Type} {err : Err → α} {run : Server → α × Server} {r : α}
    {f : Option Call} (h : w.command ch.fault err (fun s ↦ some (run s)) = some (r, w', f)) :
    f = none ∧ ((ch.effective = false ∧ w' = w ∧ ∃ e, r = err e) ∨
      ch.effective = true ∧ w' = w.setServer (run w.server).2 ∧
        ((ch.fault = .none ∧ r = (run w.server).1) ∨ ∃ e, ch.fault = .lost e ∧ r = err e)) := by
  obtain ⟨hf, h | ⟨he, r', s, hr, hw, hres⟩⟩ := command_cases h
  · exact ⟨hf, .inl h⟩
  · have hrun : run w.server = (r', s) := Option.some.inj hr
    rw [hrun]
    exact ⟨hf, .inr ⟨he, hw, hres⟩⟩

/-- A command that only reads. -/
theorem command_read {α : Type} {err : Err → α} {run : Server → α} {r : α} {f : Option Call}
    (h : w.command ch.fault err (fun s ↦ some (run s, s)) = some (r, w', f)) :
    w' = w ∧ (r = run w.server ∨ ∃ e, r = err e) := by
  obtain ⟨-, ⟨-, rfl, e, rfl⟩ | ⟨-, rfl, hres⟩⟩ := command_some h
  · exact ⟨rfl, .inr ⟨e, rfl⟩⟩
  · exact ⟨rfl, hres.imp And.right fun ⟨e, _, he⟩ ↦ ⟨e, he⟩⟩

section Exec

variable {f : Option Call} {stream group id : String}

theorem exec_xack {r : Except Err Int}
    (h : exec c (.xack stream group id) ch w = some (r, w', f)) :
    f = none ∧ ((ch.effective = false ∧ w' = w ∧ ∃ e, r = .error e) ∨
      ch.effective = true ∧ w' = w.setServer (w.server.xack stream group id).2 ∧
        ((ch.fault = .none ∧ r = (w.server.xack stream group id).1) ∨
          ∃ e, ch.fault = .lost e ∧ r = .error e)) := by
  rw [exec] at h
  exact command_some h

theorem exec_xdel {r : Except Err Int} (h : exec c (.xdel stream id) ch w = some (r, w', f)) :
    f = none ∧ ((ch.effective = false ∧ w' = w ∧ ∃ e, r = .error e) ∨
      ch.effective = true ∧ w' = w.setServer (w.server.xdel stream id).2 ∧
        ((ch.fault = .none ∧ r = (w.server.xdel stream id).1) ∨
          ∃ e, ch.fault = .lost e ∧ r = .error e)) := by
  rw [exec] at h
  exact command_some h

theorem exec_xadd {maxLen : Int} {v : Values} {r : Except Err String}
    (h : exec c (.xadd stream maxLen v) ch w = some (r, w', f)) :
    f = none ∧ ((ch.effective = false ∧ w' = w ∧ ∃ e, r = .error e) ∨
      ch.effective = true ∧ ∃ r' s,
        w.server.xadd stream maxLen v ch.newID ch.trim = some (r', s) ∧ w' = w.setServer s ∧
          ((ch.fault = .none ∧ r = r') ∨ ∃ e, ch.fault = .lost e ∧ r = .error e)) := by
  rw [exec] at h
  exact command_cases h

theorem exec_xreadGroup {consumer : String} {r : Except Err (List (String × List XMessage))}
    (h : exec c (.xreadGroup group consumer stream) ch w = some (r, w', f)) :
    f = none ∧ ((ch.effective = false ∧ w' = w ∧ ∃ e, r = .error e) ∨
      ch.effective = true ∧ ∃ r' s,
        w.server.xreadGroup group consumer stream = some (r', s) ∧ w' = w.setServer s ∧
          ((ch.fault = .none ∧ r = r') ∨ ∃ e, ch.fault = .lost e ∧ r = .error e)) := by
  rw [exec] at h
  exact command_cases h

/-- A delivery hands out what the group was not given before. -/
theorem exec_xreadGroup_ok {consumer : String} {streams : List (String × List XMessage)}
    (h : exec c (.xreadGroup group consumer stream) ch w = some (.ok streams, w', f)) :
    ch.effective = true ∧
      w' = w.setServer (w.server.setGroup stream group (w.server.deliver stream group consumer)) ∧
      streams.flatMap Prod.snd = (w.server.undelivered stream group).map Server.message := by
  obtain ⟨-, ⟨-, -, err, herr⟩ | ⟨hf, r', s, hr, rfl, ⟨-, rfl⟩ | ⟨err, -, herr⟩⟩⟩ :=
    exec_xreadGroup h
  · simp at herr
  · unfold Server.xreadGroup at hr
    split at hr
    · simp at hr
    · obtain ⟨hstreams, rfl⟩ := Prod.mk.inj (Option.some.inj hr)
      obtain rfl := Except.ok.inj hstreams
      exact ⟨hf, rfl, by simp⟩
  · simp at herr

theorem exec_lock {m : RedsyncMutex} {r : Option Err}
    (h : exec c (.lock m) ch w = some (r, w', f)) :
    f = none ∧ ((ch.effective = false ∧ w' = w ∧ ∃ e, r = some e) ∨
      ch.effective = true ∧ w' = w.setServer (w.server.lock m.name m.value).2 ∧
        ((ch.fault = .none ∧ r = (w.server.lock m.name m.value).1) ∨
          ∃ e, ch.fault = .lost e ∧ r = some e)) := by
  rw [exec] at h
  exact command_some h

theorem exec_extend {m : RedsyncMutex} {r : Bool × Option Err}
    (h : exec c (.extend m) ch w = some (r, w', f)) :
    f = none ∧ ((ch.effective = false ∧ w' = w ∧ ∃ e, r = (false, some e)) ∨
      ch.effective = true ∧ w' = w.setServer (w.server.extend m.name m.value).2 ∧
        ((ch.fault = .none ∧ r = (w.server.extend m.name m.value).1) ∨
          ∃ e, ch.fault = .lost e ∧ r = (false, some e))) := by
  rw [exec] at h
  exact command_some h

theorem exec_unlock {m : RedsyncMutex} {r : Bool × Option Err}
    (h : exec c (.unlock m) ch w = some (r, w', f)) :
    f = none ∧ ((ch.effective = false ∧ w' = w ∧ ∃ e, r = (false, some e)) ∨
      ch.effective = true ∧ w' = w.setServer (w.server.unlock m.name m.value).2 ∧
        ((ch.fault = .none ∧ r = (w.server.unlock m.name m.value).1) ∨
          ∃ e, ch.fault = .lost e ∧ r = (false, some e))) := by
  rw [exec] at h
  exact command_some h

theorem exec_existsKey {key : String} {r : Except Err Int}
    (h : exec c (.existsKey key) ch w = some (r, w', f)) :
    w' = w ∧ (r = w.server.existsKey key ∨ ∃ e, r = .error e) := by
  rw [exec] at h
  exact command_read h

theorem exec_xrange {start stop : String} {r : Except Err (List XMessage)}
    (h : exec c (.xrange stream start stop) ch w = some (r, w', f)) :
    w' = w ∧ (r = w.server.xrange stream start stop ∨ ∃ e, r = .error e) := by
  rw [exec] at h
  exact command_read h

theorem exec_xpending {idle : Nat} {start stop : String} {count : Int}
    {r : Except Err (List String)}
    (h : exec c (.xpending stream group idle start stop count) ch w = some (r, w', f)) :
    w' = w ∧ (r = w.server.xpending stream group idle start stop count ∨ ∃ e, r = .error e) := by
  rw [exec] at h
  exact command_read h

/-! ### Without a fault -/

section Clean

variable (hch : ch.fault = .none)

include hch

theorem exec_xrange_clean (start stop : String) : exec c (.xrange stream start stop) ch w =
    some (w.server.xrange stream start stop, w, none) := by rw [exec, hch]; rfl

theorem exec_xack_clean : exec c (.xack stream group id) ch w =
    some ((w.server.xack stream group id).1, w.setServer (w.server.xack stream group id).2, none) := by
  rw [exec, hch]; rfl

theorem exec_xdel_clean : exec c (.xdel stream id) ch w =
    some ((w.server.xdel stream id).1, w.setServer (w.server.xdel stream id).2, none) := by
  rw [exec, hch]; rfl

theorem exec_existsKey_clean (key : String) : exec c (.existsKey key) ch w =
    some (w.server.existsKey key, w, none) := by rw [exec, hch]; rfl

theorem exec_xpending_clean (idle : Nat) (start stop : String) (count : Int) :
    exec c (.xpending stream group idle start stop count) ch w =
      some (w.server.xpending stream group idle start stop count, w, none) := by rw [exec, hch]; rfl

/-- The server chooses the ID of an added entry and how much it trims. -/
theorem exec_xadd_clean {maxLen : Int} {v : Values} {r : Except Err String}
    (h : exec c (.xadd stream maxLen v) ch w = some (r, w', f)) :
    r = .ok ch.newID.text ∧ ∃ s, w.server.xadd stream maxLen v ch.newID ch.trim =
      some (.ok ch.newID.text, s) ∧ w' = w.setServer s := by
  obtain ⟨-, ⟨hf, -⟩ | ⟨-, r', s, hr, rfl, ⟨-, rfl⟩ | ⟨err, hf, -⟩⟩⟩ := exec_xadd h
  · simp [Choice.effective, hch] at hf
  · obtain ⟨-, rfl⟩ := Server.xadd_eq hr
    exact ⟨rfl, s, hr, rfl⟩
  · simp [hch] at hf

end Clean

/-! ### Frames -/

/-- Seven commands write to the server. -/
theorem exec_server {o : Op} {r : o.Reply} (h : exec c o ch w = some (r, w', f)) :
    w'.server = w.server ∨ o.Writes := by
  cases o with
  | xack _ _ _ | xdel _ _ | xadd _ _ _ | xreadGroup _ _ _ | lock _ | extend _ | unlock _ =>
    exact .inr trivial
  | xrange stream start stop =>
    obtain ⟨rfl, -⟩ := exec_xrange h
    exact .inl rfl
  | existsKey key =>
    obtain ⟨rfl, -⟩ := exec_existsKey h
    exact .inl rfl
  | xpending stream group idle start stop count =>
    obtain ⟨rfl, -⟩ := exec_xpending h
    exact .inl rfl
  | broker o =>
    rw [exec] at h
    obtain ⟨p, -, h⟩ := Option.map_eq_some_iff.1 h
    obtain ⟨-, h⟩ := Prod.mk.inj h
    obtain ⟨rfl, -⟩ := Prod.mk.inj h
    exact .inl rfl
  | waitOrDone d =>
    rw [exec] at h
    split at h
    · split at h
      · obtain ⟨-, h⟩ := Prod.mk.inj (Option.some.inj h)
        obtain ⟨rfl, -⟩ := Prod.mk.inj h
        exact .inl rfl
      · simp at h
    · obtain ⟨-, h⟩ := Prod.mk.inj (Option.some.inj h)
      obtain ⟨rfl, -⟩ := Prod.mk.inj h
      exact .inl rfl
  | _ =>
    rw [exec] at h
    obtain ⟨-, h⟩ := Prod.mk.inj (Option.some.inj h)
    obtain ⟨rfl, -⟩ := Prod.mk.inj h
    exact .inl rfl

/-- Only four operations write to streams or pending lists. -/
theorem exec_frame {o : Op} {r : o.Reply} (h : exec c o ch w = some (r, w', f)) :
    (w'.server.streams = w.server.streams ∧ w'.server.groups = w.server.groups) ∨
      (∃ s n v, o = .xadd s n v) ∨ (∃ s i, o = .xdel s i) ∨ (∃ s g i, o = .xack s g i) ∨
        ∃ g n s, o = .xreadGroup g n s := by
  rcases exec_server h with hs | hw
  · exact .inl (by rw [hs]; exact ⟨rfl, rfl⟩)
  cases o with
  | xadd s n v => exact .inr (.inl ⟨s, n, v, rfl⟩)
  | xdel s i => exact .inr (.inr (.inl ⟨s, i, rfl⟩))
  | xack s g i => exact .inr (.inr (.inr (.inl ⟨s, g, i, rfl⟩)))
  | xreadGroup g n s => exact .inr (.inr (.inr (.inr ⟨g, n, s, rfl⟩)))
  | lock m =>
    left
    obtain ⟨-, ⟨-, rfl, -⟩ | ⟨-, rfl, -⟩⟩ := exec_lock h
    · exact ⟨rfl, rfl⟩
    · rcases w.server.lock_cases m.name m.value with ⟨-, heq⟩ | ⟨v, -, heq⟩ <;>
        exact ⟨by rw [heq]; rfl, by rw [heq]; rfl⟩
  | extend m =>
    left
    obtain ⟨-, ⟨-, rfl, -⟩ | ⟨-, rfl, -⟩⟩ := exec_extend h
    · exact ⟨rfl, rfl⟩
    · rcases w.server.extend_cases m.name m.value with ⟨-, heq⟩ | ⟨-, heq⟩ | ⟨v, -, -, heq⟩ <;>
        exact ⟨by rw [heq]; rfl, by rw [heq]; rfl⟩
  | unlock m =>
    left
    obtain ⟨-, ⟨-, rfl, -⟩ | ⟨-, rfl, -⟩⟩ := exec_unlock h
    · exact ⟨rfl, rfl⟩
    · rcases w.server.unlock_cases m.name m.value with ⟨-, heq⟩ | ⟨-, heq⟩
      · exact ⟨by rw [heq]; rfl, by rw [heq]; rfl⟩
      · exact ⟨by rw [server_setServer, heq], by rw [server_setServer, heq]⟩
  | _ => exact hw.elim

/-- A stream is written to by additions and deletions that name it. -/
theorem exec_streams {o : Op} {r : o.Reply} (h : exec c o ch w = some (r, w', f)) {name : String}
    (hadd : ∀ n v, o ≠ .xadd name n v) (hdel : ∀ i, o ≠ .xdel name i) :
    w'.server.streams name = w.server.streams name := by
  rcases exec_frame h with ⟨hst, -⟩ | ⟨s, n, v, rfl⟩ | ⟨s, i, rfl⟩ | ⟨s, g, i, rfl⟩ | ⟨g, n, s, rfl⟩
  · rw [hst]
  · have hne : name ≠ s := fun heq ↦ hadd n v (by rw [heq])
    obtain ⟨-, ⟨-, rfl, -⟩ | ⟨-, r', s', hr, rfl, -⟩⟩ := exec_xadd h
    · rfl
    · exact (Server.xadd_other hr).2 name hne
  · have hne : name ≠ s := fun heq ↦ hdel i (by rw [heq])
    obtain ⟨-, ⟨-, rfl, -⟩ | ⟨-, rfl, -⟩⟩ := exec_xdel h
    · rfl
    · rcases w.server.xdel_cases s i with ⟨j, -, -, heq⟩ | ⟨-, heq⟩
      · simp [heq, Server.setStream, Function.update_of_ne hne]
      · rw [server_setServer, heq]
  · obtain ⟨-, ⟨-, rfl, -⟩ | ⟨-, rfl, -⟩⟩ := exec_xack h
    · rfl
    · rcases w.server.xack_cases s g i with ⟨j, -, -, heq⟩ | ⟨-, heq, -⟩
      · rw [server_setServer, heq]
        rfl
      · rw [server_setServer, heq]
  · obtain ⟨-, ⟨-, rfl, -⟩ | ⟨-, r', s', hr, rfl, -⟩⟩ := exec_xreadGroup h
    · rfl
    · unfold Server.xreadGroup at hr
      split at hr
      · simp at hr
      · obtain ⟨-, rfl⟩ := Prod.mk.inj (Option.some.inj hr)
        rfl

/-- **What an operation does to the keys**: nothing, or a lock or an extension sets one that was
not there, or one is unlocked. -/
theorem exec_keys {o : Op} {r : o.Reply} (h : exec c o ch w = some (r, w', f)) :
    w'.server.keys = w.server.keys ∨
      (∃ m, w.server.keys m.name = none ∧
        w'.server.keys = Function.update w.server.keys m.name (some m.value) ∧
          (o = .lock m ∨ o = .extend m)) ∨
      ∃ m, w'.server.keys = Function.update w.server.keys m.name none ∧ o = .unlock m := by
  rcases exec_server h with hs | hw
  · exact .inl (by rw [hs])
  cases o with
  | lock m =>
    obtain ⟨-, ⟨-, rfl, -⟩ | ⟨-, rfl, -⟩⟩ := exec_lock h
    · exact .inl rfl
    rcases w.server.lock_cases m.name m.value with ⟨hno, heq⟩ | ⟨v, -, heq⟩
    · refine .inr (.inl ⟨m, hno, ?_, .inl rfl⟩)
      rw [server_setServer, heq]
      rfl
    · exact .inl (by rw [server_setServer, heq])
  | extend m =>
    obtain ⟨-, ⟨-, rfl, -⟩ | ⟨-, rfl, -⟩⟩ := exec_extend h
    · exact .inl rfl
    rcases w.server.extend_cases m.name m.value with ⟨hno, heq⟩ | ⟨-, heq⟩ | ⟨v, -, -, heq⟩
    · refine .inr (.inl ⟨m, hno, ?_, .inr rfl⟩)
      rw [server_setServer, heq]
      rfl
    · exact .inl (by rw [server_setServer, heq])
    · exact .inl (by rw [server_setServer, heq])
  | unlock m =>
    obtain ⟨-, ⟨-, rfl, -⟩ | ⟨-, rfl, -⟩⟩ := exec_unlock h
    · exact .inl rfl
    rcases w.server.unlock_cases m.name m.value with ⟨-, heq⟩ | ⟨-, heq⟩
    · refine .inr (.inr ⟨m, ?_, rfl⟩)
      rw [server_setServer, heq]
      rfl
    · exact .inl (by rw [server_setServer, heq])
  | xack stream group id =>
    left
    obtain ⟨-, ⟨-, rfl, -⟩ | ⟨-, rfl, -⟩⟩ := exec_xack h
    · rfl
    · rcases w.server.xack_cases stream group id with ⟨i, -, -, heq⟩ | ⟨-, heq, -⟩ <;>
        rw [server_setServer, heq]
      rfl
  | xdel stream id =>
    left
    obtain ⟨-, ⟨-, rfl, -⟩ | ⟨-, rfl, -⟩⟩ := exec_xdel h
    · rfl
    · rcases w.server.xdel_cases stream id with ⟨i, -, -, heq⟩ | ⟨-, heq⟩ <;>
        rw [server_setServer, heq]
      rfl
  | xadd stream maxLen v =>
    left
    obtain ⟨-, ⟨-, rfl, -⟩ | ⟨-, r', s, hr, rfl, -⟩⟩ := exec_xadd h
    · rfl
    · exact Server.xadd_keys hr
  | xreadGroup group consumer stream =>
    left
    obtain ⟨-, ⟨-, rfl, -⟩ | ⟨-, r', s, hr, rfl, -⟩⟩ := exec_xreadGroup h
    · rfl
    · unfold Server.xreadGroup at hr
      split at hr
      · simp at hr
      · obtain ⟨-, rfl⟩ := Prod.mk.inj (Option.some.inj hr)
        rfl
  | _ => exact hw.elim

/-- A key is held as before, or has just been locked or extended. -/
theorem exec_key_set {o : Op} {r : o.Reply} (h : exec c o ch w = some (r, w', f)) {k v : String}
    (hk : w'.server.keys k = some v) :
    w.server.keys k = some v ∨ o = .lock ⟨k, v⟩ ∨ o = .extend ⟨k, v⟩ := by
  rcases exec_keys h with heq | ⟨m, -, heq, ho⟩ | ⟨m, heq, -⟩ <;> rw [heq] at hk
  · exact .inl hk
  · by_cases hm : k = m.name
    · subst hm
      obtain rfl : m.value = v := by simpa using hk
      exact .inr ho
    · exact .inl (by rwa [Function.update_of_ne hm] at hk)
  · by_cases hm : k = m.name
    · subst hm
      simp at hk
    · exact .inl (by rwa [Function.update_of_ne hm] at hk)

/-- **A key that is held stays so** until it is unlocked. -/
theorem exec_key_held {o : Op} {r : o.Reply} (h : exec c o ch w = some (r, w', f)) {k v : String}
    (hk : w.server.keys k = some v) :
    w'.server.keys k = some v ∨ ∃ m, o = .unlock m ∧ m.name = k := by
  rcases exec_keys h with heq | ⟨m, hno, heq, -⟩ | ⟨m, heq, rfl⟩
  · exact .inl (by rw [heq, hk])
  · have hne : k ≠ m.name := by
      rintro rfl
      rw [hno] at hk
      cases hk
    exact .inl (by rw [heq, Function.update_of_ne hne, hk])
  · by_cases hm : k = m.name
    · exact .inr ⟨m, rfl, hm.symm⟩
    · exact .inl (by rw [heq, Function.update_of_ne hm, hk])

/-- **What an operation does to the memory of clients**: it records or pops a stream, uses the
broker, or leaves it alone. -/
theorem exec_clients {o : Op} {r : o.Reply} (h : exec c o ch w = some (r, w', f)) :
    w'.clients = w.clients ∨ (∃ n i, o = .putStreamLocks n i) ∨ (∃ n, o = .popStreamLocksInfo n) ∨
      ∃ b b', o = .broker b ∧ w' = w.setClient c { w.clients c with broker := b' } := by
  cases o with
  | putStreamLocks n i => exact .inr (.inl ⟨n, i, rfl⟩)
  | popStreamLocksInfo n => exact .inr (.inr (.inl ⟨n, rfl⟩))
  | broker b =>
    rw [exec] at h
    obtain ⟨p, -, h⟩ := Option.map_eq_some_iff.1 h
    obtain ⟨-, h⟩ := Prod.mk.inj h
    exact .inr (.inr (.inr ⟨b, p.2, rfl, (Prod.mk.inj h).1.symm⟩))
  | waitOrDone k =>
    rw [exec] at h
    split at h
    · split at h
      · obtain ⟨-, h⟩ := Prod.mk.inj (Option.some.inj h)
        exact .inl (congrArg clients (Prod.mk.inj h).1).symm
      · cases h
    · obtain ⟨-, h⟩ := Prod.mk.inj (Option.some.inj h)
      exact .inl (congrArg clients (Prod.mk.inj h).1).symm
  | _ =>
    left
    rw [exec] at h
    first
    | exact command_clients h
    | obtain ⟨-, h⟩ := Prod.mk.inj (Option.some.inj h)
      exact (congrArg clients (Prod.mk.inj h).1).symm

/-- A field of the memory that an update leaves alone. -/
theorem field_setClient {α : Type} (F : Local → α) {l : Local} (hl : F l = F (w.clients c))
    (d : Nat) : F ((w.setClient c l).clients d) = F (w.clients d) := by
  by_cases hd : d = c
  · subst hd
    simpa [setClient] using hl
  · simp [setClient, Function.update_of_ne hd]

/-- Only two operations write to the records of a client. -/
theorem exec_streamLocks {o : Op} {r : o.Reply} (h : exec c o ch w = some (r, w', f)) (d : Nat) :
    (w'.clients d).streamLocks = (w.clients d).streamLocks ∨
      (∃ n i, o = .putStreamLocks n i) ∨ ∃ n, o = .popStreamLocksInfo n := by
  rcases exec_clients h with heq | hput | hpop | ⟨b, b', rfl, rfl⟩
  · exact .inl (by rw [heq])
  · exact .inr (.inl hput)
  · exact .inr (.inr hpop)
  · exact .inl (field_setClient Local.streamLocks (by rfl) d)

/-- Only the reader starts goroutines. -/
theorem exec_fork {o : Op} {r : o.Reply} {g : Call}
    (h : exec c o ch w = some (r, w', some g)) :
    ∃ m l i, o = .goStartExtendingKey m l i ∧ g = .startExtendingKey m l i := by
  cases o with
  | goStartExtendingKey m l i =>
    obtain ⟨-, h⟩ := Prod.mk.inj (Option.some.inj h)
    obtain ⟨-, h⟩ := Prod.mk.inj h
    exact ⟨m, l, i, rfl, (Option.some.inj h).symm⟩
  | broker o =>
    rw [exec] at h
    obtain ⟨p, -, h⟩ := Option.map_eq_some_iff.1 h
    obtain ⟨-, h⟩ := Prod.mk.inj h
    simp at h
  | waitOrDone k =>
    rw [exec] at h
    split at h
    · split at h
      · obtain ⟨-, h⟩ := Prod.mk.inj (Option.some.inj h)
        simp at h
      · simp at h
    · obtain ⟨-, h⟩ := Prod.mk.inj (Option.some.inj h)
      simp at h
  | _ =>
    rw [exec] at h
    first
    | exact absurd (command_cases h).1 (by simp)
    | obtain ⟨-, h⟩ := Prod.mk.inj (Option.some.inj h)
      simp at h

theorem exec_putStreamLocks {name : String} {info : StreamLocksInfo} {r : Unit}
    (h : exec c (.putStreamLocks name info) ch w = some (r, w', f)) :
    w' = w.setClient c { w.clients c with
      streamLocks := (w.clients c).streamLocks.insert name info } := by
  obtain ⟨-, h⟩ := Prod.mk.inj (Option.some.inj h)
  exact (Prod.mk.inj h).1.symm

theorem exec_popStreamLocksInfo {name : String} {r : Option StreamLocksInfo}
    (h : exec c (.popStreamLocksInfo name) ch w = some (r, w', f)) :
    r = (w.clients c).streamLocks.lookup name ∧
      w' = w.setClient c { w.clients c with
        streamLocks := (w.clients c).streamLocks.erase name } := by
  obtain ⟨hr, h⟩ := Prod.mk.inj (Option.some.inj h)
  exact ⟨hr.symm, (Prod.mk.inj h).1.symm⟩

theorem exec_isStreamProcessingDone {name : String} {r : Bool}
    (h : exec c (.isStreamProcessingDone name) ch w = some (r, w', f)) :
    r = ((w.clients c).streamLocks.lookup name).isNone := by
  obtain ⟨hr, -⟩ := Prod.mk.inj (Option.some.inj h)
  exact hr.symm

end Exec

end World

namespace Service

variable {V : Service} {s : Server}

theorem stream_setStream {l : Log StreamID Values} : V.stream (s.setStream V.lbs l) = l := by
  simp [stream, Server.setStream]

theorem stream_setStream_of_ne {name : String} {l : Log StreamID Values} (h : name ≠ V.lbs) :
    V.stream (s.setStream name l) = V.stream s := by
  simp [stream, Server.setStream, Function.update_of_ne h.symm]

theorem pending_setGroup {l : Log StreamID Pending} :
    V.pending (s.setGroup V.lbs V.group l) = l := by
  simp [pending, Server.setGroup]

end Service

/-- A recoverer adds to the LBS, or to its DLQ. -/
theorem Stage.OkAdd.target {stage : Stage} {r : Client} {stream : String} {maxLen : Int}
    {v : Values} (h : stage.OkAdd r stream maxLen v) :
    (stream = r.lbsName ∧ maxLen = 0) ∨
      (stream = r.recoveryConfig.dlqStream ∧ maxLen = r.recoveryConfig.dlqMaxLen) := by
  cases stage with
  | won e name =>
    cases name with
    | none => exact .inr ⟨h.2.1, h.2.2.1⟩
    | some name =>
      rcases h with h | h
      · exact .inl ⟨h.2.1, h.2.2.1⟩
      · exact .inr ⟨h.2.2.1, h.2.2.2.1⟩
  | _ => exact h.elim

/-! ## Records -/

theorem Env.step_streamLocks {e : Env} {w w' : World} (h : Env.step e w = some w') (d : Nat) :
    (w'.clients d).streamLocks = (w.clients d).streamLocks := by
  cases e with
  | produce stream i v =>
    obtain ⟨p, -, rfl⟩ := Option.map_eq_some_iff.1 h
    rfl
  | expire key =>
    obtain rfl := Option.some.inj h
    rfl
  | tick ms =>
    obtain rfl := Option.some.inj h
    rfl
  | cancel c =>
    obtain rfl := Option.some.inj h
    by_cases hd : d = c
    · subst hd; simp [World.setClient]
    · simp [World.setClient, Function.update_of_ne hd]

/-- A record was there before, or has just been made. -/
theorem World.exec_lookup {c : Nat} {o : Op} {ch : Choice} {w w' : World} {f : Option Call}
    {r : o.Reply} (h : exec c o ch w = some (r, w', f)) {d : Nat} {name : String}
    {info : StreamLocksInfo} (hlook : (w'.clients d).streamLocks.lookup name = some info) :
    (w.clients d).streamLocks.lookup name = some info ∨
      (d = c ∧ o = .putStreamLocks name info) := by
  rcases exec_streamLocks h d with heq | ⟨n, i, rfl⟩ | ⟨n, rfl⟩
  · exact .inl (heq ▸ hlook)
  · rw [exec_putStreamLocks h] at hlook
    by_cases hd : d = c
    · subst hd
      by_cases hn : name = n
      · subst hn
        obtain rfl : i = info := by simpa [setClient] using hlook
        exact .inr ⟨rfl, rfl⟩
      · exact .inl (by simpa [setClient, Finmap.lookup_insert_of_ne _ hn] using hlook)
    · exact .inl (by simpa [setClient, Function.update_of_ne hd] using hlook)
  · rw [(exec_popStreamLocksInfo h).2] at hlook
    by_cases hd : d = c
    · subst hd
      by_cases hn : name = n
      · subst hn
        simp [setClient] at hlook
      · exact .inl (by simpa [setClient, Finmap.lookup_erase_ne hn] using hlook)
    · exact .inl (by simpa [setClient, Function.update_of_ne hd] using hlook)

/-- **A record is an old one, or was just put.** -/
theorem record_step {V : Service} {P P' : Pool V.machine} {e : Event V.machine}
    (hs : Pool.Step P e P') {d : Nat} {name : String} {info : StreamLocksInfo}
    (h : (P'.state.clients d).streamLocks.lookup name = some info) :
    (P.state.clients d).streamLocks.lookup name = some info ∨
      ∃ t ch r f, e = .op t d (.putStreamLocks name info) ch r f := by
  cases e with
  | op t c o ch r f =>
    have hx : World.exec c o ch P.state = some (r, P'.state, f) := hs.op_exec
    rcases World.exec_lookup hx h with h | ⟨rfl, rfl⟩
    · exact .inl h
    · exact .inr ⟨t, ch, r, f, rfl⟩
  | again t =>
    cases hs with
    | again => exact .inl h
  | start c f =>
    cases hs with
    | start => exact .inl h
  | env e =>
    cases hs with
    | env he => exact .inl (Env.step_streamLocks he d ▸ h)
  | crash c =>
    cases hs with
    | crash =>
      by_cases hd : d = c
      · subst hd
        simp [World.setClient, Local.new] at h
      · left
        simpa [World.setClient, Function.update_of_ne hd] using h

/-! ## The LBS -/

/-- **What an event can do to the LBS**: nothing, add one entry, delete one entry, take
one entry off the pending list, or hand out the undelivered entries. -/
inductive Change (V : Service) (h : History) (P : Pool V.machine) (e : Event V.machine)
    (s' : Server) : Prop
  | same (hs : V.stream s' = V.stream P.state.server)
      (hp : V.pending s' = V.pending P.state.server) (hadd : h.entryAdded V e = none)
      (hout : History.handedOut V e = none) (hack : ∀ t i, ¬ History.Acks V P t i e)
  | push (i : StreamID) (v : Values) (x : Option StreamID)
      (hlt : (V.stream P.state.server).top < i)
      (hs : V.stream s' = (V.stream P.state.server).push i v hlt)
      (hp : V.pending s' = V.pending P.state.server) (hadd : h.entryAdded V e = some (i, v, x))
      (hout : History.handedOut V e = none) (hack : ∀ t i, ¬ History.Acks V P t i e)
  | del (t : Nat) (i : StreamID) (id : String) (hid : StreamID.ofText? id = some i)
      (he : ∃ c ch r f, e = .op t c (.xdel V.lbs id) ch r f)
      (hs : V.stream s' = (V.stream P.state.server).erase i)
      (hp : V.pending s' = V.pending P.state.server) (hadd : h.entryAdded V e = none)
      (hout : History.handedOut V e = none) (hack : ∀ t i, ¬ History.Acks V P t i e)
  | ack (t : Nat) (i : StreamID) (hack : History.Acks V P t i e)
      (hs : V.stream s' = V.stream P.state.server)
      (hp : V.pending s' = (V.pending P.state.server).erase i) (hadd : h.entryAdded V e = none)
      (hout : History.handedOut V e = none)
  | deliver (n : String) (hout : History.handedOut V e = some n)
      (hs : V.stream s' = V.stream P.state.server)
      (hp : V.pending s' = P.state.server.deliver V.lbs V.group n)
      (hadd : h.entryAdded V e = none) (hack : ∀ t i, ¬ History.Acks V P t i e)

section Change

variable {V : Service} {h : History} {P P' : Pool V.machine} {e : Event V.machine}

/-- An operation that leaves the streams and groups alone. -/
theorem Change.of_op {t c : Nat} {o : Op} {ch : Choice} {r : o.Reply} {f : Option Call}
    {s' : Server} (hs : s'.streams = P.state.server.streams)
    (hg : s'.groups = P.state.server.groups)
    (hadd : h.entryAdded V (.op (M := V.machine) t c o ch r f) = none)
    (hout : History.handedOut V (.op (M := V.machine) t c o ch r f) = none)
    (hack : ∀ t' i, ¬ History.Acks V P t' i (.op (M := V.machine) t c o ch r f)) :
    Change V h P (.op (M := V.machine) t c o ch r f) s' :=
  .same (by rw [Service.stream, hs]; rfl) (by rw [Service.pending, hg]; rfl) hadd hout hack

theorem change_op {t c : Nat} {o : Op} {ch : Choice} {r : o.Reply} {w' : World}
    {f : Option Call} (hok : (h.session t).Ok V.json (V.client c) o)
    (hx : World.exec c o ch P.state = some (r, w', f)) :
    Change V h P (.op (M := V.machine) t c o ch r f) w'.server := by
  cases o with
  | xack stream group id =>
    obtain ⟨hstream, hgroup, -⟩ := hok
    rw [V.lbsName_eq] at hstream
    rw [V.lbsGroupName_eq] at hgroup
    subst hstream hgroup
    obtain ⟨-, ⟨hf, rfl, -⟩ | ⟨hf, rfl, -⟩⟩ := World.exec_xack hx
    · exact .of_op rfl rfl rfl rfl fun _ _ h ↦ by simp [History.Acks, hf] at h
    rcases P.state.server.xack_cases V.lbs V.group id with ⟨i, hi, hm, heq⟩ | ⟨hi, heq, -⟩
    · refine .ack t i ⟨rfl, rfl, rfl, hf, hi, hm⟩ ?_ ?_ rfl rfl
      · rw [heq]; rfl
      · rw [heq]; exact Service.pending_setGroup
    · refine .of_op ?_ ?_ rfl rfl ?_
      · rw [World.server_setServer, heq]
      · rw [World.server_setServer, heq]
      · rintro t' j ⟨-, -, -, -, hj, hm⟩
        exact hi j hj hm
  | xadd stream maxLen v =>
    obtain ⟨scope, stage, -, hadd⟩ := hok
    obtain ⟨-, ⟨hf, rfl, -⟩ | ⟨hf, r', s, hr, rfl, -⟩⟩ := World.exec_xadd hx
    · exact .of_op rfl rfl (by simp [History.entryAdded, hf]) rfl fun _ _ ↦ not_false
    rcases hadd.target with ⟨hstream, rfl⟩ | ⟨hstream, -⟩
    · rw [V.lbsName_eq] at hstream
      subst hstream
      obtain ⟨hlt, rfl, -⟩ := Server.xadd_uncapped hr
      exact .push _ _ _ hlt Service.stream_setStream rfl (by simp [History.entryAdded, hf]; rfl)
        rfl fun _ _ ↦ not_false
    · have hne : stream ≠ V.lbs := hstream ▸ V.dlqStream_ne_lbs c
      obtain ⟨hg, hst⟩ := Server.xadd_other hr
      refine .same (hst _ hne.symm) ?_ (by simp [History.entryAdded, hne]) rfl fun _ _ ↦ not_false
      rw [World.server_setServer, Service.pending, hg]
      rfl
  | xdel stream id =>
    obtain ⟨hstream, -⟩ := hok
    rw [V.lbsName_eq] at hstream
    subst hstream
    obtain ⟨-, ⟨hf, rfl, -⟩ | ⟨hf, rfl, -⟩⟩ := World.exec_xdel hx
    · exact .of_op rfl rfl rfl rfl fun _ _ ↦ not_false
    rcases P.state.server.xdel_cases V.lbs id with ⟨i, hi, hm, heq⟩ | ⟨hi, heq⟩
    · refine .del t i id hi ⟨c, ch, r, f, rfl⟩ ?_ ?_ rfl rfl fun _ _ ↦ not_false
      · rw [heq]; exact Service.stream_setStream
      · rw [heq]; rfl
    · refine .of_op ?_ ?_ rfl rfl fun _ _ ↦ not_false
      · rw [World.server_setServer, heq]
      · rw [World.server_setServer, heq]
  | xreadGroup group consumer stream =>
    obtain ⟨hgroup, -, hstream, -⟩ := hok
    rw [V.lbsName_eq] at hstream
    rw [V.lbsGroupName_eq] at hgroup
    subst hstream hgroup
    obtain ⟨-, ⟨hf, rfl, -⟩ | ⟨hf, r', s, hr, rfl, -⟩⟩ := World.exec_xreadGroup hx
    · exact .of_op rfl rfl rfl (by simp [History.handedOut, hf]) fun _ _ ↦ not_false
    unfold Server.xreadGroup at hr
    split at hr
    · simp at hr
    · obtain ⟨-, rfl⟩ := Prod.mk.inj (Option.some.inj hr)
      exact .deliver consumer (by simp [History.handedOut, hf]) rfl Service.pending_setGroup rfl
        fun _ _ ↦ not_false
  | _ =>
    obtain ⟨hs, hg⟩ : w'.server.streams = P.state.server.streams ∧
        w'.server.groups = P.state.server.groups := by
      simpa using World.exec_frame hx
    exact .of_op hs hg rfl rfl fun _ _ ↦ not_false

theorem change_produce {stream : String} {i : StreamID} {v : Values} {w' : World}
    (he : Env.step (.produce stream i v) P.state = some w') :
    Change V h P (.env (.produce stream i v)) w'.server := by
  obtain ⟨⟨r, s⟩, hr, rfl⟩ := Option.map_eq_some_iff.1 he
  obtain ⟨hlt, rfl, -⟩ := Server.xadd_uncapped hr
  by_cases hne : stream = V.lbs
  · subst hne
    exact .push i v (some i) hlt Service.stream_setStream rfl (by simp [History.entryAdded]) rfl
      fun _ _ ↦ not_false
  · exact .same (Service.stream_setStream_of_ne hne) rfl (by simp [History.entryAdded, hne]) rfl
      fun _ _ ↦ not_false

theorem change (hob : V.contract.Obeying P h.session) (hs : Pool.Step P e P') :
    Change V h P e P'.state.server := by
  cases e with
  | op t c o ch r f =>
    have hok : (h.session t).Ok V.json (V.client c) o := hob.ok hs
    have hx : World.exec c o ch P.state = some (r, P'.state, f) := hs.op_exec
    exact change_op hok hx
  | again t =>
    cases hs with
    | again ht hp => exact .same rfl rfl rfl rfl fun _ _ ↦ not_false
  | start c f =>
    cases hs with
    | start => exact .same rfl rfl rfl rfl fun _ _ ↦ not_false
  | env e =>
    cases hs with
    | env he =>
      cases e with
      | produce stream i v => exact change_produce he
      | expire key =>
        obtain rfl := Option.some.inj he
        exact .same rfl rfl rfl rfl fun _ _ ↦ not_false
      | tick ms =>
        obtain rfl := Option.some.inj he
        exact .same rfl rfl rfl rfl fun _ _ ↦ not_false
      | cancel c =>
        obtain rfl := Option.some.inj he
        exact .same rfl rfl rfl rfl fun _ _ ↦ not_false
  | crash c =>
    cases hs with
    | crash => exact .same rfl rfl rfl rfl fun _ _ ↦ not_false

/-- A delivered entry leaves the pending list by an acknowledgement only. -/
theorem Change.mem_pending_iff {s' : Server} (hc : Change V h P e s') {i : StreamID}
    (hi : i ≤ (V.pending P.state.server).top) :
    i ∈ V.pending s' ↔ i ∈ V.pending P.state.server ∧ ∀ t, ¬ History.Acks V P t i e := by
  cases hc with
  | same _ hp _ _ hack => simp [hp, hack]
  | push _ _ _ _ _ hp _ _ hack => simp [hp, hack]
  | del _ _ _ _ _ _ hp _ _ hack => simp [hp, hack]
  | ack t j hack _ hp =>
    rw [hp, Log.mem_erase]
    refine and_congr_right fun _ ↦ ⟨fun hne u hacks ↦ ?_, fun hno hij ↦ hno t (hij ▸ hack)⟩
    exact hne (History.acks_unique hack hacks).2
  | deliver n _ _ hp _ hack =>
    rw [hp, Server.deliver, Log.mem_append]
    constructor
    · rintro (hm | ⟨v, hv⟩)
      · exact ⟨hm, fun t ↦ hack t i⟩
      · exact absurd (P.state.server.top_lt_of_mem_handedTo hv) hi.not_gt
    · exact fun hm ↦ .inl hm.1

end Change

end RedisStreamClient.Impl
