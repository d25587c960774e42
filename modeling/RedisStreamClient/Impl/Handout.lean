import RedisStreamClient.Impl.Contract
import RedisStreamClient.Impl.Effects
import RedisStreamClient.Lib.Handout

/-!
# Handing out the entries of the LBS

`XREADGROUP` hands a reader the entries that its group has not been given yet, and the reader
records them one by one.  An entry therefore waits with one reader at most, and an entry that
was recorded waits with none.
-/

namespace RedisStreamClient.Impl

open RedisStreamClient.Lib RedisStreamClient.Errs RedisStreamClient.Notifs
open RedisStreamClient.Redis

/-- The entry `id` was handed out to some consumer of the client's group. -/
def Client.HandedOut (r : Client) (s : Server) (id : String) : Prop :=
  ∃ i : StreamID, id = i.text ∧ i ≤ (s.groups r.lbsName r.lbsGroupName).top

/-- The IDs of the messages that a reader has yet to record. -/
def Session.waits : Session → List String
  | .batch todo | .recorded _ todo | .announced _ todo => todo.map XMessage.id
  | .locked message _ todo => message.id :: todo.map XMessage.id
  | _ => []

section

variable {J : Json} {r : Client} {q : Session} {o : Op} {c : Nat} {ch : Choice} {w w' : World}
  {f : Option Call} {id : String}

theorem Client.HandedOut.mono {s s' : Server} (h : r.HandedOut s id)
    (htop : (s.groups r.lbsName r.lbsGroupName).top ≤ (s'.groups r.lbsName r.lbsGroupName).top) :
    r.HandedOut s' id := by
  obtain ⟨i, hi, hle⟩ := h
  exact ⟨i, hi, hle.trans htop⟩

/-- The clients of a service share what was handed out. -/
theorem Client.HandedOut.congr {r' : Client} {s : Server} (hr : r.serviceName = r'.serviceName)
    (h : r.HandedOut s id) : r'.HandedOut s id := by
  simpa [HandedOut, lbsName, lbsGroupName, hr] using h

/-- **Groups only move on**: an operation takes entries off a pending list or adds new ones at its
end. -/
theorem World.exec_succeeds {reply : o.Reply} (h : exec c o ch w = some (reply, w', f))
    (stream group : String) :
    (w.server.groups stream group).Succeeds (w'.server.groups stream group) := by
  have hsame : w'.server.groups = w.server.groups →
      (w.server.groups stream group).Succeeds (w'.server.groups stream group) := fun heq ↦ by
    rw [heq]
    exact .refl _
  rcases exec_frame h with ⟨-, hg⟩ | ⟨s, n, v, rfl⟩ | ⟨s, i, rfl⟩ | ⟨s, g, i, rfl⟩ | ⟨g, n, s, rfl⟩
  · exact hsame hg
  · obtain ⟨-, ⟨-, rfl, -⟩ | ⟨-, r', s', hr, rfl, -⟩⟩ := exec_xadd h
    · exact .refl _
    · exact hsame (Server.xadd_other hr).1
  · obtain ⟨-, ⟨-, rfl, -⟩ | ⟨-, rfl, -⟩⟩ := exec_xdel h
    · exact .refl _
    · rcases w.server.xdel_cases s i with ⟨j, -, -, heq⟩ | ⟨-, heq⟩
      · exact hsame (by rw [server_setServer, heq]; rfl)
      · exact hsame (by rw [server_setServer, heq])
  · obtain ⟨-, ⟨-, rfl, -⟩ | ⟨-, rfl, -⟩⟩ := exec_xack h
    · exact .refl _
    · rcases w.server.xack_cases s g i with ⟨j, -, -, heq⟩ | ⟨-, heq, -⟩
      · rw [server_setServer, heq, Server.groups_setGroup]
        split
        · next hgroup =>
          rw [hgroup.1, hgroup.2]
          exact .erase
        · exact .refl _
      · exact hsame (by rw [server_setServer, heq])
  · obtain ⟨-, ⟨-, rfl, -⟩ | ⟨-, r', s', hr, rfl, -⟩⟩ := exec_xreadGroup h
    · exact .refl _
    · rw [Server.xreadGroup] at hr
      split at hr
      · cases hr
      · obtain ⟨-, rfl⟩ := Prod.mk.inj (Option.some.inj hr)
        rw [server_setServer, Server.groups_setGroup]
        split
        · next hgroup =>
          rw [hgroup.1, hgroup.2]
          exact .append
        · exact .refl _

/-- A step moves groups on. -/
theorem groups_succeed {cfg : Nat → Client} {P P' : Pool (machine J cfg)}
    {e : Event (machine J cfg)} (hs : Pool.Step P e P') (stream group : String) :
    (P.state.server.groups stream group).Succeeds (P'.state.server.groups stream group) := by
  cases e with
  | op t c o ch x f =>
    have hx : World.exec c o ch P.state = some (x, P'.state, f) := hs.op_exec
    exact World.exec_succeeds hx _ _
  | env v =>
    cases hs with
    | @env _ w' he =>
      cases v with
      | produce stream i values =>
        obtain ⟨p, hp, rfl⟩ := Option.map_eq_some_iff.1 he
        rw [World.server_setServer, (Server.xadd_other hp).1]
        exact .refl _
      | _ =>
        obtain rfl := Option.some.inj he
        exact .refl _
  | _ =>
    cases hs
    exact .refl _

/-- What `XREADGROUP` hands out was not handed out before, and is now. -/
theorem World.exec_xreadGroup_handedOut {streams : List (String × List XMessage)}
    (h : exec c (.xreadGroup r.lbsGroupName r.consumerID r.lbsName) ch w =
      some (.ok streams, w', f)) :
    ((streams.flatMap Prod.snd).map XMessage.id).Nodup ∧
      ∀ id ∈ (streams.flatMap Prod.snd).map XMessage.id,
        ¬ r.HandedOut w.server id ∧ r.HandedOut w'.server id := by
  obtain ⟨-, rfl, hmsgs⟩ := exec_xreadGroup_ok h
  have hids : (streams.flatMap Prod.snd).map XMessage.id =
      ((w.server.undelivered r.lbsName r.lbsGroupName).map Prod.fst).map StreamID.text := by
    rw [hmsgs, List.map_map, List.map_map]
    rfl
  rw [hids]
  refine ⟨?_, ?_⟩
  · refine List.Nodup.map StreamID.text_injective (List.Pairwise.map _ ?_
      ((w.server.streams r.lbsName).sorted.filter _))
    exact fun a b hlt ↦ hlt.ne
  · intro id hid
    obtain ⟨i, hi, rfl⟩ := List.mem_map.1 hid
    obtain ⟨d, hd, rfl⟩ := List.mem_map.1 hi
    have hlt : (w.server.groups r.lbsName r.lbsGroupName).top < d.1 := by
      simpa using (List.mem_filter.1 hd).2
    refine ⟨?_, d.1, rfl, ?_⟩
    · rintro ⟨j, hj, hle⟩
      obtain rfl := StreamID.text_injective hj
      exact absurd hlt hle.not_gt
    · rw [World.server_setServer, Server.groups_setGroup, if_pos ⟨rfl, rfl⟩]
      exact Log.le_top_append_of_mem (List.mem_map_of_mem hd)

/-- What was handed out stays so. -/
theorem Client.HandedOut.step {cfg : Nat → Client} {P P' : Pool (machine J cfg)}
    {e : Event (machine J cfg)} (hs : Pool.Step P e P')
    (h : r.HandedOut P.state.server id) : r.HandedOut P'.state.server id :=
  h.mono (groups_succeed hs _ _).top_le

theorem Session.role_of_waits (h : q.waits ≠ []) : q.role = .reader := by
  cases q <;> first | rfl | exact absurd rfl h

/-- **What a goroutine does to the entries that wait with it**: it drops them, records the first
one, or is handed new ones. -/
theorem Session.waits_next {reply : o.Reply} (hok : q.Ok J r o)
    (hx : World.exec c o ch w = some (reply, w', f)) {gone gone' : Set String}
    (hput : ∀ name info, o = .putStreamLocks name info →
      gone' = insert info.lbsInfo.idInLBS gone)
    (hrest : (∀ name info, o ≠ .putStreamLocks name info) → gone' = gone) :
    Handout.Move (r.HandedOut w.server) (r.HandedOut w'.server) q.waits
      (q.next J r o reply).waits gone gone' := by
  by_cases hrole : q.role = .reader
  · rcases reader_cases hrole hok reply with ⟨-, hne, hsame⟩ | ⟨rfl, g, n, s, rfl⟩ |
      ⟨message, name, todo, rfl, hname, rfl⟩ | ⟨message, name, todo, info, rfl, hinfo, -, rfl⟩ |
      ⟨info, todo, ctx, rfl, rfl⟩ | ⟨info, todo, rfl | rfl, rfl⟩
    · exact .keep (by rw [hsame]) (hrest hne)
    · obtain ⟨rfl, rfl, rfl, -⟩ := hok
      rcases reply with err | streams
      · exact .keep (.refl _) (hrest (by simp))
      · obtain ⟨hnodup, hnew⟩ := World.exec_xreadGroup_handedOut hx
        exact .hand hnodup hnew (hrest (by simp))
    · refine .keep ?_ (hrest (by simp))
      rcases reply with _ | err
      · simp [next, onLock, hname, waits]
      · exact List.nil_sublist _
    · refine .take message.id (.refl _) ?_
      rw [hput name info rfl, hinfo]
    · exact .keep (.refl _) (hrest (by simp))
    · exact .keep (.refl _) (hrest (by simp))
    · exact .keep (.refl _) (hrest (by simp))
  · refine .keep ?_ (hrest ?_)
    · have hnil : (q.next J r o reply).waits = [] := by
        by_contra h
        exact hrole ((role_next hok reply).symm.trans (role_of_waits h))
      rw [hnil]
      exact List.nil_sublist _
    · rintro name info rfl
      obtain ⟨message, todo, rfl, -⟩ := hok
      exact hrole rfl

theorem Session.waits_start (g : Call) : (Session.start g).waits = [] := by
  cases g <;> rfl

end

end RedisStreamClient.Impl
