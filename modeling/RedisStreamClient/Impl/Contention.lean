import RedisStreamClient.Impl.Custody
import RedisStreamClient.Impl.Trace

/-!
# Contention for locks

The key of a lock joins the name of a data stream and the ID of an entry; in which LBS the entry
is it does not say.  A reader that finds the key of one of its entries taken gives up for good,
so it matters who can have taken it.

Nobody of its own service can.  An entry is handed out to one reader, which locks it once, and
whoever extends or releases a lock later on has the mutex from there.  `Docketed` says so for
every run: what is held, recorded or looked after was locked before, and no entry that waits to
be locked was.  Clients of another service can, since IDs are unique in one stream only, and
`lock_refused_by_other_service` says that nobody else can.  So services do not contend as long as
no two of them have an entry of the same ID for the same data stream (`lock_granted_if_unshared`).
-/

namespace RedisStreamClient.Impl

open RedisStreamClient.Lib RedisStreamClient.Errs RedisStreamClient.Notifs
open RedisStreamClient.Redis

/-! ## Sessions -/

namespace Session

/-- The IDs of the messages that a reader has yet to lock. -/
def toLock : Session → List String
  | .batch todo | .locked _ _ todo | .recorded _ todo | .announced _ todo => todo.map XMessage.id
  | _ => []

/-- The mutex that a goroutine works with. -/
def Has (r : Client) (q : Session) (m : RedsyncMutex) : Prop :=
  (∃ l, q.locks = some l ∧ m = ⟨l.formMutexKey, r.consumerID⟩) ∨
    ∃ info, (q.tends = some info ∨ q.holds = some info) ∧ m = info.redsyncMutex

variable {J : Json} {r : Client} {q : Session} {o : Op} {m : RedsyncMutex}

theorem role_of_toLock (h : q.toLock ≠ []) : q.role = .reader := by
  cases q <;> first | rfl | exact absurd rfl h

theorem toLock_start (g : Call) : (Session.start g).toLock = [] := by
  cases g <;> rfl

/-- **What a goroutine does to the entries that it has yet to lock**: it drops some, is handed
new ones, or tries to lock one. -/
theorem toLock_next (hok : q.Ok J r o) (reply : o.Reply) :
    ((∀ m, o ≠ .lock m) ∧ (q.next J r o reply).toLock.Sublist q.toLock) ∨
      (∃ streams, (⟨o, reply⟩ : Act) =
          ⟨.xreadGroup r.lbsGroupName r.consumerID r.lbsName, .ok streams⟩ ∧
        (q.next J r o reply).toLock = (streams.flatMap Prod.snd).map XMessage.id) ∨
      ∃ l : LBSInfo, o = .lock ⟨l.formMutexKey, r.consumerID⟩ ∧
        (l.idInLBS :: (q.next J r o reply).toLock).Sublist q.toLock := by
  by_cases hrole : q.role = .reader
  · rcases reader_cases hrole hok reply with ⟨hw, -, hsame⟩ | ⟨rfl, g, n, s, rfl⟩ |
      ⟨message, name, todo, rfl, hname, rfl⟩ | ⟨message, name, todo, info, rfl, hinfo, -, rfl⟩ |
      ⟨info, todo, ctx, rfl, rfl⟩ | ⟨info, todo, rfl | rfl, rfl⟩
    · refine .inl ⟨?_, by rw [hsame]⟩
      rintro m rfl
      exact hw trivial
    · obtain ⟨rfl, rfl, rfl, -⟩ := hok
      rcases reply with err | streams
      · exact .inl ⟨by simp, .refl _⟩
      · exact .inr (.inl ⟨streams, rfl, rfl⟩)
    · refine .inr (.inr ⟨⟨name, message.id⟩, rfl, ?_⟩)
      rcases reply with _ | err
      · simp [next, onLock, hname, toLock]
      · exact List.cons_sublist_cons.2 (List.nil_sublist _)
    · exact .inl ⟨by simp, .refl _⟩
    · exact .inl ⟨by simp, .refl _⟩
    · exact .inl ⟨by simp, .refl _⟩
    · exact .inl ⟨by simp, .refl _⟩
  · refine .inl ⟨?_, ?_⟩
    · rintro m rfl
      obtain ⟨message, name, todo, rfl, -⟩ := hok
      exact hrole rfl
    · have hnil : (q.next J r o reply).toLock = [] := by
        by_contra h
        exact hrole ((role_next hok reply).symm.trans (role_of_toLock h))
      rw [hnil]
      exact List.nil_sublist _

/-- **The mutex of a goroutine** it had before, has just locked, or has just popped. -/
theorem has_next (hok : q.Ok J r o) {reply : o.Reply} (h : (q.next J r o reply).Has r m) :
    q.Has r m ∨ o = .lock m ∨
      ∃ name info, (⟨o, reply⟩ : Act) = ⟨.popStreamLocksInfo name, some info⟩ ∧
        m = info.redsyncMutex := by
  rcases h with ⟨l, hl, rfl⟩ | ⟨info, htends | hholds, rfl⟩
  · rcases locks_next hok hl with hl | hact
    · exact .inl (.inl ⟨l, hl, rfl⟩)
    · exact .inr (.inl (congrArg Sigma.fst hact))
  · rcases tends_next hok htends with htends | ⟨-, rfl⟩
    · exact .inl (.inr ⟨info, .inl htends, rfl⟩)
    · obtain ⟨message, todo, rfl, hinfo, hmutex⟩ := hok
      exact .inl (.inl ⟨_, rfl, hmutex⟩)
  · rcases holds_next hok hholds with hholds | ⟨-, name, hact⟩
    · exact .inl (.inr ⟨info, .inr hholds, rfl⟩)
    · exact .inr (.inr ⟨name, info, hact, rfl⟩)

/-- A goroutine that was just called from outside has no mutex. -/
theorem not_has_start {g : Call} (hg : g.Public) : ¬ (Session.start g).Has r m := by
  rintro (⟨l, hl, -⟩ | ⟨info, h | h, -⟩)
  · cases g <;> cases hl
  · cases g with
    | startExtendingKey m l i => exact hg
    | _ => cases h
  · cases g <;> cases h

end Session

/-! ## Runs -/

section

variable {J : Json} {cfg : Nat → Client}

/-- Only public calls are made from outside. -/
def Offered : Event (machine J cfg) → Prop
  | .start _ f => f.Public
  | .op _ _ _ _ _ _ | .again _ | .env _ | .crash _ => True

instance : @DecidablePred (Event (machine J cfg)) Offered
  | .start _ f => inferInstanceAs (Decidable f.Public)
  | .op _ _ _ _ _ _ | .again _ | .env _ | .crash _ => .isTrue trivial

/-- What is kept of a run. -/
structure Docket where
  /-- How far the goroutines are. -/
  session : Nat → Session
  /-- The mutexes that clients have tried to lock. -/
  locked : List (Nat × RedsyncMutex)

namespace Docket

/-- The mutex that a client tries to lock in an event. -/
def locks : Event (machine J cfg) → List (Nat × RedsyncMutex)
  | .op _ c (.lock m) _ _ _ => [(c, m)]
  | _ => []

/-- What is kept after an event. -/
def update (γ : Docket) (P : Pool (machine J cfg)) (e : Event (machine J cfg)) : Docket where
  session := (contract J cfg).track γ.session P e
  locked := γ.locked ++ locks e

/-- Nothing happened yet. -/
def new : Docket := ⟨fun _ ↦ .broker, []⟩

/-- Somebody tried to lock the mutex. -/
def Locked (γ : Docket) (m : RedsyncMutex) : Prop := ∃ c, (c, m) ∈ γ.locked

/-- What was tried to be locked, by service and key. -/
def keys (cfg : Nat → Client) (γ : Docket) : List (String × String) :=
  γ.locked.map fun x ↦ ((cfg x.1).serviceName, x.2.name)

/-- The entries, by service and ID, that a client of their service tried to lock. -/
def gone (cfg : Nat → Client) (γ : Docket) : Set (String × String) :=
  {x | '>' ∉ x.2.toList ∧ ∃ name, (x.1, (LBSInfo.mk name x.2).formMutexKey) ∈ γ.keys cfg}

end Docket

/-- The entry was handed out to some consumer of the service. -/
def GivenOut (cfg : Nat → Client) (w : World) (x : String × String) : Prop :=
  ∃ c, (cfg c).serviceName = x.1 ∧ (cfg c).HandedOut w.server x.2

/-- The entries that a goroutine has yet to lock. -/
def ahead (cfg : Nat → Client) (c : Nat) (q : Session) : List (String × String) :=
  q.toLock.map ((cfg c).serviceName, ·)

/-- Nobody holds a lock, and no client has started. -/
structure Untouched (P : Pool (machine J cfg)) : Prop where
  /-- Nothing runs. -/
  threads : P.threads = []
  /-- No key is held. -/
  keys : ∀ k, P.state.server.keys k = none
  /-- Nothing is recorded. -/
  streamLocks : ∀ c, (P.state.clients c).streamLocks = ∅

/-- **What holds in every run**: locks come from those that were asked for, and no entry is
locked twice. -/
structure Docketed (P : Pool (machine J cfg)) (γ : Docket) : Prop where
  /-- The goroutines keep their contract. -/
  obeying : (contract J cfg).Obeying P γ.session
  /-- A key that is held was locked. -/
  key : ∀ k v, P.state.server.keys k = some v → γ.Locked ⟨k, v⟩
  /-- What is recorded was locked. -/
  record : ∀ c name info, (P.state.clients c).streamLocks.lookup name = some info →
    γ.Locked info.redsyncMutex
  /-- The mutex of a goroutine was locked. -/
  has : ∀ t c f m, P.Live t c f → (γ.session t).Has (cfg c) m → γ.Locked m
  /-- Entries that wait to be locked were not. -/
  handout : Handout (contract J cfg) (ahead cfg) (GivenOut cfg) P γ.session (γ.gone cfg)
  /-- A service tries to lock a key once. -/
  once : (γ.keys cfg).Nodup

variable {P P' : Pool (machine J cfg)} {e : Event (machine J cfg)} {γ : Docket} {m : RedsyncMutex}

theorem GivenOut.not_mem {w : World} {x : String × String} (h : GivenOut cfg w x) :
    '>' ∉ x.2.toList := by
  obtain ⟨c, -, h⟩ := h
  exact h.not_mem

theorem Docket.Locked.update (h : γ.Locked m) : (γ.update P e).Locked m := by
  obtain ⟨c, hc⟩ := h
  exact ⟨c, List.mem_append_left _ hc⟩

theorem Docket.locked_lock {t c : Nat} {ch : Choice} {x : Option Err} {f : Option Call} :
    (γ.update P (.op (M := machine J cfg) t c (.lock m) ch x f)).Locked m :=
  ⟨c, List.mem_append_right _ (List.mem_singleton_self _)⟩

theorem Docket.keys_update :
    (γ.update P e).keys cfg =
      γ.keys cfg ++ (Docket.locks e).map fun x ↦ ((cfg x.1).serviceName, x.2.name) :=
  List.map_append

/-- An event that locks nothing leaves the keys as they are. -/
theorem Docket.keys_update_of_nil (h : Docket.locks e = []) :
    (γ.update P e).keys cfg = γ.keys cfg := by
  rw [keys_update, h, List.map_nil, List.append_nil]

theorem Docket.gone_update_of_nil (h : Docket.locks e = []) :
    (γ.update P e).gone cfg = γ.gone cfg := by
  rw [gone, gone, keys_update_of_nil h]

/-- A reader takes up one entry with its key. -/
theorem Docket.gone_lock {t c : Nat} {ch : Choice} {x : Option Err} {f : Option Call} {l : LBSInfo}
    {v : String} (hl : '>' ∉ l.idInLBS.toList) :
    (γ.update P (.op (M := machine J cfg) t c (.lock ⟨l.formMutexKey, v⟩) ch x f)).gone cfg =
      insert ((cfg c).serviceName, l.idInLBS) (γ.gone cfg) := by
  ext ⟨s, id⟩
  simp only [gone, keys_update, locks, List.map_cons, List.map_nil, List.mem_append,
    List.mem_singleton, Set.mem_insert_iff, Set.mem_ofPred_eq, Prod.mk.injEq]
  constructor
  · rintro ⟨hid, name, hm | ⟨rfl, hname⟩⟩
    · exact .inr ⟨hid, name, hm⟩
    · obtain rfl : ⟨name, id⟩ = l := formMutexKey_inj ⟨name, id⟩ l hid hl hname
      exact .inl ⟨rfl, rfl⟩
  · rintro (⟨rfl, rfl⟩ | ⟨hid, name, hm⟩)
    · exact ⟨hl, l.dataStreamName, .inr ⟨rfl, rfl⟩⟩
    · exact ⟨hid, name, .inl hm⟩

namespace Docketed

theorem init (h₀ : Untouched P) : Docketed P .new := by
  obtain ⟨w, threads⟩ := P
  obtain rfl : threads = [] := h₀.threads
  refine ⟨(contract J cfg).obeying_nil w _, ?_, ?_, ?_, ?_, List.nodup_nil⟩
  · intro k v hk
    rw [h₀.keys k] at hk
    cases hk
  · intro c name info hlook
    rw [h₀.streamLocks c] at hlook
    simp at hlook
  · rintro t c f m ⟨p, hp⟩
    simp at hp
  · have hgone : Docket.new.gone cfg = ∅ := by simp [Docket.gone, Docket.keys, Docket.new]
    rw [hgone]
    exact .nil rfl _

section

variable (hD : Docketed P γ) (hs : Pool.Step P e P')

include hD hs

/-- A goroutine is allowed what it does. -/
theorem ok {t c : Nat} {o : Op} {ch : Choice} {x : o.Reply} {f : Option Call}
    (he : e = .op (M := machine J cfg) t c o ch x f) : (γ.session t).Ok J (cfg c) o := by
  subst he
  exact hD.obeying.ok hs

/-- **Who locks a key is the first of its service to do so.** -/
theorem not_mem_keys {t c : Nat} {ch : Choice} {x : Option Err} {f : Option Call}
    (he : e = .op (M := machine J cfg) t c (.lock m) ch x f) :
    ((cfg c).serviceName, m.name) ∉ γ.keys cfg := by
  subst he
  obtain ⟨message, name, todo, hq, -, rfl⟩ := hD.ok hs rfl
  obtain ⟨g, hl⟩ := hs.op_live
  have hwaits : ((cfg c).serviceName, message.id) ∈ ahead cfg c (γ.session t) := by
    rw [hq]
    exact List.mem_cons_self
  have hid := (hD.handout.old t c g hl _ hwaits).not_mem
  exact fun hmem ↦ hD.handout.untaken t c g hl _ hwaits ⟨hid, name, hmem⟩

/-- Who extends a mutex had it. -/
theorem locked_of_extend {t c : Nat} {ch : Choice} {x : Bool × Option Err} {f : Option Call}
    (he : e = .op (M := machine J cfg) t c (.extend m) ch x f) : γ.Locked m := by
  subst he
  obtain ⟨info, hq, rfl⟩ := hD.ok hs rfl
  obtain ⟨g, hl⟩ := hs.op_live
  refine hD.has t c g _ hl (.inr ⟨info, .inl ?_, rfl⟩)
  rw [hq]
  rfl

/-- Who records a mutex had it. -/
theorem locked_of_put {t c : Nat} {name : String} {info : StreamLocksInfo} {ch : Choice} {x : Unit}
    {f : Option Call} (he : e = .op (M := machine J cfg) t c (.putStreamLocks name info) ch x f) :
    γ.Locked info.redsyncMutex := by
  subst he
  obtain ⟨message, todo, hq, hinfo, hmutex⟩ := hD.ok hs rfl
  obtain ⟨g, hl⟩ := hs.op_live
  refine hD.has t c g _ hl (.inl ⟨⟨name, message.id⟩, ?_, hmutex⟩)
  rw [hq]
  rfl

/-- Who starts an extender had its mutex. -/
theorem locked_of_go {t c : Nat} {l : LBSInfo} {i : GoMap Value} {ch : Choice} {x : Unit}
    {f : Option Call} (he : e = .op (M := machine J cfg) t c (.goStartExtendingKey m l i) ch x f) :
    γ.Locked m := by
  subst he
  obtain ⟨todo, hq | hq⟩ := hD.ok hs rfl <;>
  · obtain ⟨g, hl⟩ := hs.op_live
    refine hD.has t c g _ hl (.inr ⟨⟨l, m, i⟩, .inl ?_, rfl⟩)
    rw [hq]
    rfl

theorem key_step {k v : String} (hk : P'.state.server.keys k = some v) :
    (γ.update P e).Locked ⟨k, v⟩ := by
  cases e with
  | op t c o ch x f =>
    have hx : World.exec c o ch P.state = some (x, P'.state, f) := hs.op_exec
    rcases World.exec_key_set hx hk with hk | rfl | rfl
    · exact (hD.key k v hk).update
    · exact Docket.locked_lock
    · exact (hD.locked_of_extend hs rfl).update
  | env v' =>
    refine (hD.key k v ?_).update
    cases hs with
    | @env _ w' he =>
      cases v' with
      | produce stream i values =>
        obtain ⟨p, hp, rfl⟩ := Option.map_eq_some_iff.1 he
        obtain ⟨⟨l, hl⟩, -⟩ := Server.xadd_eq hp
        rwa [World.server_setServer, hl] at hk
      | expire key =>
        obtain rfl := Option.some.inj he
        by_cases hne : k = key
        · subst hne
          simp [Server.setKey] at hk
        · simpa [Server.setKey, Function.update_of_ne hne] using hk
      | _ =>
        obtain rfl := Option.some.inj he
        exact hk
  | _ =>
    refine (hD.key k v ?_).update
    cases hs
    exact hk

theorem record_step {c : Nat} {name : String} {info : StreamLocksInfo}
    (hlook : (P'.state.clients c).streamLocks.lookup name = some info) :
    (γ.update P e).Locked info.redsyncMutex := by
  cases e with
  | op t d o ch x f =>
    have hx : World.exec d o ch P.state = some (x, P'.state, f) := hs.op_exec
    rcases World.exec_lookup hx hlook with hlook | ⟨rfl, rfl⟩
    · exact (hD.record c name info hlook).update
    · exact (hD.locked_of_put hs rfl).update
  | env v =>
    refine (hD.record c name info ?_).update
    cases hs with
    | @env _ w' he =>
      cases v with
      | produce stream i values =>
        obtain ⟨p, hp, rfl⟩ := Option.map_eq_some_iff.1 he
        exact hlook
      | cancel d =>
        obtain rfl := Option.some.inj he
        have heq : ((P.state.setClient d { P.state.clients d with ctxDone := true }).clients
            c).streamLocks = (P.state.clients c).streamLocks :=
          World.field_setClient Local.streamLocks (by rfl) c
        exact heq ▸ hlook
      | _ =>
        obtain rfl := Option.some.inj he
        exact hlook
  | crash d =>
    refine (hD.record c name info ?_).update
    cases hs with
    | crash =>
      by_cases hc : c = d
      · subst hc
        simp [World.setClient, Local.new] at hlook
      · simpa [World.setClient, Function.update_of_ne hc] using hlook
  | _ =>
    refine (hD.record c name info ?_).update
    cases hs
    exact hlook

theorem has_step (hG : Offered e) (t c : Nat) (f : Call) (hl : P'.Live t c f) :
    ∀ m, ((contract J cfg).track γ.session P e t).Has (cfg c) m → (γ.update P e).Locked m := by
  refine hD.obeying.each (I := fun c _ (q : Session) ↦ ∀ m, q.Has (cfg c) m → γ.Locked m)
    (Q := fun c _ (q : Session) ↦ ∀ m, q.Has (cfg c) m → (γ.update P e).Locked m) hs
    (fun t c f hl m ↦ hD.has t c f m hl) ?_ ?_ ?_ t c f hl
  · exact fun t c f _ _ _ hI m hm ↦ (hI m hm).update
  · rintro t c f o ch x g rfl hl hok hx hI m hm
    rcases Session.has_next hok hm with hm | rfl | ⟨name, info, hact, rfl⟩
    · exact (hI m hm).update
    · exact Docket.locked_lock
    · obtain ⟨rfl, hr⟩ := Sigma.mk.inj hact
      obtain rfl := eq_of_heq hr
      have hpop : World.exec c (.popStreamLocksInfo name) ch P.state =
        some (some info, P'.state, g) := hx
      obtain ⟨hlook, -⟩ := World.exec_popStreamLocksInfo hpop
      exact (hD.record c name info hlook.symm).update
  · intro c f hst m hm
    cases e with
    | start d g =>
      obtain ⟨rfl, rfl⟩ := Prod.mk.inj (Option.some.inj hst)
      exact absurd hm (Session.not_has_start hG)
    | op t d o ch x g =>
      obtain ⟨g, rfl, heq⟩ := Option.map_eq_some_iff.1 hst
      obtain ⟨rfl, rfl⟩ := Prod.mk.inj heq
      have hx : World.exec d o ch P.state = some (x, P'.state, some g) := hs.op_exec
      obtain ⟨m', l, i, rfl, rfl⟩ := World.exec_fork hx
      rcases hm with ⟨l', h, -⟩ | ⟨info, h | h, rfl⟩
      · cases h
      · cases h
        exact (hD.locked_of_go hs rfl).update
      · cases h
    | _ => cases hst

theorem handout_step : Handout (contract J cfg) (ahead cfg) (GivenOut cfg) P'
    ((contract J cfg).track γ.session P e) ((γ.update P e).gone cfg) := by
  refine Handout.step ?_ ?_ hD.handout hs ?_ ?_
  · rintro t c o ch x f rfl
    have hok : (γ.session t).Ok J (cfg c) o := hD.ok hs rfl
    have hx : World.exec c o ch P.state = some (x, P'.state, f) := hs.op_exec
    rcases Session.toLock_next hok x with ⟨hne, hsub⟩ | ⟨streams, hact, hnew⟩ | ⟨l, rfl, hsub⟩
    · refine .keep (hsub.map _) (Docket.gone_update_of_nil ?_)
      cases o with
      | lock m => exact absurd rfl (hne m)
      | _ => rfl
    · obtain ⟨rfl, hr⟩ := Sigma.mk.inj hact
      obtain rfl := eq_of_heq hr
      obtain ⟨hnodup, hout⟩ := World.exec_xreadGroup_handedOut hx
      have hahead : ahead cfg c ((contract J cfg).next c (γ.session t)
          (.xreadGroup (cfg c).lbsGroupName (cfg c).consumerID (cfg c).lbsName) (.ok streams)) =
          ((streams.flatMap Prod.snd).map XMessage.id).map ((cfg c).serviceName, ·) :=
        congrArg (List.map _) hnew
      refine .hand ?_ ?_ (Docket.gone_update_of_nil rfl)
      · rw [hahead]
        exact hnodup.map fun a b h ↦ (Prod.mk.inj h).2
      · rw [hahead]
        intro y hy
        obtain ⟨id, hid, rfl⟩ := List.mem_map.1 hy
        refine ⟨?_, c, rfl, (hout id hid).2⟩
        rintro ⟨d, hd, h⟩
        exact (hout id hid).1 (h.congr hd)
    · obtain ⟨g, hl⟩ := hs.op_live
      have hold : GivenOut cfg P.state ((cfg c).serviceName, l.idInLBS) :=
        hD.handout.old t c g hl _ (List.mem_map_of_mem (hsub.subset List.mem_cons_self))
      exact .take ((cfg c).serviceName, l.idInLBS) (hsub.map _) (Docket.gone_lock hold.not_mem)
  · intro c f hst
    have hnil : ahead cfg c ((contract J cfg).init c f) = [] :=
      congrArg (List.map _) (Session.toLock_start f)
    rw [hnil]
    exact .nil
  · rintro x ⟨c, hc, h⟩
    exact ⟨c, hc, h.step hs⟩
  · intro hm
    refine Docket.gone_update_of_nil ?_
    cases e with
    | op t c o ch x f => cases hm
    | _ => rfl

theorem once_step : ((γ.update P e).keys cfg).Nodup := by
  by_cases hlocks : Docket.locks e = []
  · rw [Docket.keys_update_of_nil hlocks]
    exact hD.once
  · cases e with
    | op t c o ch x f =>
      cases o with
      | lock m =>
        have hne := hD.not_mem_keys hs rfl
        rw [Docket.keys_update]
        refine hD.once.append (List.nodup_singleton _) ?_
        exact List.disjoint_singleton.2 hne
      | _ => exact absurd rfl hlocks
    | _ => exact absurd rfl hlocks

end

/-- **Every step keeps the docket.** -/
theorem step (hD : Docketed P γ) (hG : Offered e) (hs : Pool.Step P e P') :
    Docketed P' (γ.update P e) :=
  ⟨hD.obeying.step hs, fun _ _ ↦ hD.key_step hs, fun _ _ _ ↦ hD.record_step hs,
    fun t c f m hl ↦ hD.has_step hs hG t c f hl m, hD.handout_step hs, hD.once_step hs⟩

theorem of_run {P₀ : Pool (machine J cfg)} (h₀ : Untouched P₀)
    (hrun : Pool.Run Docket.update (fun _ _ e ↦ Offered e) (P₀, .new) P γ) : Docketed P γ :=
  hrun.invariant (init h₀) fun _ _ _ _ hD hG hs ↦ hD.step hG hs

/-- **A lock is refused because a client of another service has taken it.** -/
theorem refused (hD : Docketed P γ) {t c : Nat} {ch : Choice} {reply : Option Err}
    {f : Option Call} (hs : Pool.Step P (.op (M := machine J cfg) t c (.lock m) ch reply f) P')
    (hch : ch.fault = .none) (hr : reply ≠ none) :
    ∃ d v, P.state.server.keys m.name = some v ∧ (d, ⟨m.name, v⟩) ∈ γ.locked ∧
      (cfg d).serviceName ≠ (cfg c).serviceName := by
  have hx : World.exec c (.lock m) ch P.state = some (reply, P'.state, f) := hs.op_exec
  obtain ⟨v, hv⟩ := World.exec_lock_refused hch hx hr
  obtain ⟨d, hd⟩ := hD.key m.name v hv
  refine ⟨d, v, hv, hd, fun hsame ↦ hD.not_mem_keys hs rfl ?_⟩
  rw [← hsame]
  exact List.mem_map_of_mem hd

end Docketed

/-- The keys of two entries are the same only if their data streams and their IDs are. -/
theorem formMutexKey_text_inj {name name' : String} {i j : StreamID} :
    (LBSInfo.mk name i.text).formMutexKey = (LBSInfo.mk name' j.text).formMutexKey ↔
      name = name' ∧ i = j := by
  constructor
  · intro h
    obtain ⟨hname, htext⟩ := LBSInfo.mk.inj
      (formMutexKey_inj _ _ (StreamID.not_mem_text i) (StreamID.not_mem_text j) h)
    exact ⟨hname, StreamID.text_injective htext⟩
  · rintro ⟨rfl, rfl⟩
    rfl

/-- **An entry is locked once.**  In every run of any number of clients of any services,
whichever commands fail, locks expire and clients crash: the clients of a service together try to
lock the key of an entry once at most. -/
theorem entry_locked_once {P₀ : Pool (machine J cfg)} (h₀ : Untouched P₀)
    (hrun : Pool.Run Docket.update (fun _ _ e ↦ Offered e) (P₀, .new) P γ) : (γ.keys cfg).Nodup :=
  (Docketed.of_run h₀ hrun).once

/-- **Only another service takes the lock of an entry.**  In every run of any number of clients
of any services, whichever commands fail, locks expire and clients crash: if the lock of an entry
that a reader was handed is refused, and not because the command met a fault, then its key is
held with a mutex that a client of another service locked. -/
theorem lock_refused_by_other_service {P₀ : Pool (machine J cfg)} (h₀ : Untouched P₀)
    (hrun : Pool.Run Docket.update (fun _ _ e ↦ Offered e) (P₀, .new) P γ) {t c : Nat} {ch : Choice}
    {reply : Option Err} {f : Option Call}
    (hs : Pool.Step P (.op (M := machine J cfg) t c (.lock m) ch reply f) P')
    (hch : ch.fault = .none) (hr : reply ≠ none) :
    ∃ d v, P.state.server.keys m.name = some v ∧ (d, ⟨m.name, v⟩) ∈ γ.locked ∧
      (cfg d).serviceName ≠ (cfg c).serviceName :=
  (Docketed.of_run h₀ hrun).refused hs hch hr

/-- **Services that share no entry do not contend.**  The keys of two entries, of whichever LBSs,
differ unless their data streams and their IDs are the same.  In every run of any number of
clients of any services, whichever commands fail, locks expire and clients crash: if a reader tries
to lock an entry, no client of another service has tried to lock one of the same data stream and
the same ID, and the command meets no fault, then the lock is granted and the reader goes on. -/
theorem lock_granted_if_unshared {P₀ : Pool (machine J cfg)} (h₀ : Untouched P₀)
    (hrun : Pool.Run Docket.update (fun _ _ e ↦ Offered e) (P₀, .new) P γ) {t c : Nat} {ch : Choice}
    {reply : Option Err} {f : Option Call}
    (hs : Pool.Step P (.op (M := machine J cfg) t c (.lock m) ch reply f) P')
    (hch : ch.fault = .none) :
    (∀ (name name' : String) (i j : StreamID), (LBSInfo.mk name i.text).formMutexKey =
      (LBSInfo.mk name' j.text).formMutexKey ↔ name = name' ∧ i = j) ∧
    ∃ message name todo, γ.session t = .batch (message :: todo) ∧
      m = ⟨(LBSInfo.mk name message.id).formMutexKey, (cfg c).consumerID⟩ ∧
      ((∀ d v, (d, ⟨(LBSInfo.mk name message.id).formMutexKey, v⟩) ∈ γ.locked →
          (cfg d).serviceName = (cfg c).serviceName) →
        reply = none ∧ (γ.update P (.op (M := machine J cfg) t c (.lock m) ch reply f)).session t =
          .locked message name todo) := by
  refine ⟨fun name name' i j ↦ formMutexKey_text_inj, ?_⟩
  have hD := Docketed.of_run h₀ hrun
  obtain ⟨message, name, todo, hq, hname, rfl⟩ := hD.ok hs rfl
  refine ⟨message, name, todo, hq, rfl, fun hunshared ↦ ?_⟩
  have hgranted : reply = none := by
    by_contra hr
    obtain ⟨d, v, -, hd, hne⟩ := hD.refused hs hch hr
    exact hne (hunshared d v hd)
  subst hgranted
  obtain ⟨g, hl⟩ := hs.op_live
  have hnext : (contract J cfg).next c (γ.session t)
      (.lock (Session.mutexOf (cfg c) message name)) none = Session.locked message name todo := by
    rw [hq]
    show Session.onLock J (.batch (message :: todo)) none = _
    simp [Session.onLock, hname]
  have htrack : (contract J cfg).track γ.session P
      (.op t c (.lock (Session.mutexOf (cfg c) message name)) ch none f) t = _ :=
    Contract.track_op_self hl.lt_length
  exact ⟨rfl, htrack.trans hnext⟩

end

namespace Demo

/-- Client 0 is one of service `a`, all others of service `b`. -/
def twoServices (c : Nat) : Client :=
  { service.client c with serviceName := if c = 0 then "a" else "b" }

/-- Service `a` has an entry `1-0` for the data stream `orders`, and service `b` one for this data
stream, and their readers are handed them.  The one of `a` locks its entry. -/
def contendingFor (name : String) : List (Pool.Label (machine service.json twoServices)) :=
  [.env (.produce "a-input" ⟨1, 0⟩ (fields "orders")),
    .env (.produce "b-input" ⟨1, 0⟩ (fields name)),
    .start 0 (.readLBSStream 0 100000000), .start 1 (.readLBSStream 0 100000000),
    .op 0 .plain, .op 0 .plain, .op 1 .plain, .op 1 .plain, .op 0 .plain]

/-- Both services have an entry `1-0` for the data stream `orders`. -/
def contending : List (Pool.Label (machine service.json twoServices)) := contendingFor "orders"

/-- The two services before anything happened. -/
def vacant : Pool (machine service.json twoServices) := ⟨idle.state, []⟩

theorem untouched_vacant : Untouched vacant := ⟨rfl, fun _ ↦ rfl, fun _ ↦ rfl⟩

theorem contending_isSome : (Pool.schedule Docket.update (fun _ _ e ↦ Offered e) contending
    (vacant, .new)).isSome = true := by
  decide +kernel

/-- The reader of `b` is about to lock its entry. -/
def contended : Pool (machine service.json twoServices) × Docket :=
  (Pool.schedule Docket.update (fun _ _ e ↦ Offered e) contending (vacant, .new)).get
    contending_isSome

theorem turnedDown_isSome : (Pool.schedule Docket.update (fun _ _ e ↦ Offered e)
    (contending ++ [.op 1 .plain]) (vacant, .new)).isSome = true := by
  decide +kernel

/-- It was refused. -/
def turnedDown : Pool (machine service.json twoServices) × Docket :=
  (Pool.schedule Docket.update (fun _ _ e ↦ Offered e) (contending ++ [.op 1 .plain])
    (vacant, .new)).get turnedDown_isSome

theorem apart_isSome : (Pool.schedule Docket.update (fun _ _ e ↦ Offered e) (contendingFor "users")
    (vacant, .new)).isSome = true := by
  decide +kernel

/-- The reader of `b` is about to lock its entry, which is for another data stream. -/
def apart : Pool (machine service.json twoServices) × Docket :=
  (Pool.schedule Docket.update (fun _ _ e ↦ Offered e) (contendingFor "users") (vacant, .new)).get
    apart_isSome

/-- Whether client `c` tries to lock this key without a fault. -/
def isLock (c : Nat) (key : String) : Event (machine service.json twoServices) → Bool
  | .op _ d (.lock m) ⟨.none, _, _, _⟩ _ _ => d == c && m.name == key
  | _ => false

theorem exists_of_isLock {c : Nat} {key : String} {e : Event (machine service.json twoServices)}
    (h : isLock c key e = true) : ∃ t m ch reply f, ch.fault = .none ∧ m.name = key ∧
      e = .op (M := machine service.json twoServices) t c (.lock m) ch reply f := by
  unfold isLock at h
  split at h
  · next t d m i n case reply f =>
    rw [Bool.and_eq_true, beq_iff_eq, beq_iff_eq] at h
    obtain ⟨rfl, hkey⟩ := h
    exact ⟨t, m, _, reply, f, rfl, hkey, rfl⟩
  · cases h

theorem ended_isSome : (Pool.schedule Docket.update (fun _ _ e ↦ Offered e ∧ NoFault e)
    (contending ++ List.replicate 4 (.op 1 .plain)) (vacant, .new)).isSome = true := by
  decide +kernel

/-- The reader of `b` was refused, has told its user and returned. -/
def ended : Pool (machine service.json twoServices) × Docket :=
  (Pool.schedule Docket.update (fun _ _ e ↦ Offered e ∧ NoFault e)
    (contending ++ List.replicate 4 (.op 1 .plain)) (vacant, .new)).get ended_isSome

/-- Whether a lock of client `c` is refused without a fault. -/
def isRefused (c : Nat) : Event (machine service.json twoServices) → Bool
  | .op _ d (.lock _) ⟨.none, _, _, _⟩ (some _) _ => d == c
  | _ => false

theorem exists_of_isRefused {c : Nat} {e : Event (machine service.json twoServices)}
    (h : isRefused c e = true) : ∃ t m ch err f, ch.fault = .none ∧
      e = .op (M := machine service.json twoServices) t c (.lock m) ch (some err) f := by
  unfold isRefused at h
  split at h
  · next t d m i n case err f =>
    obtain rfl := beq_iff_eq.1 h
    exact ⟨t, m, _, err, f, rfl, rfl⟩
  · cases h

end Demo

/-- Both services have locked the entry `1-0` of their LBS. -/
theorem entry_locked_once_contended :
    Demo.turnedDown.2.keys Demo.twoServices =
        [("a", "orders<MUTEX_KEY_SEP>1-0"), ("b", "orders<MUTEX_KEY_SEP>1-0")] ∧
      (Demo.turnedDown.2.keys Demo.twoServices).Nodup :=
  ⟨by decide +kernel,
    entry_locked_once Demo.untouched_vacant (Pool.run_of_isSome Demo.turnedDown_isSome)⟩

/-- **Services contend for locks.**  Each of two services has an entry `1-0` for `orders`; the
client of the first locks the key of both, and the reader of the second is refused. -/
theorem lock_refused_by_other_service_contended :
    ∃ t m ch err f P', Pool.Step Demo.contended.1 (.op (M := machine Demo.service.json
        Demo.twoServices) t 1 (.lock m) ch (some err) f) P' ∧ ch.fault = .none ∧
      ∃ d v, Demo.contended.1.state.server.keys m.name = some v ∧
        (d, ⟨m.name, v⟩) ∈ Demo.contended.2.locked ∧
          (Demo.twoServices d).serviceName ≠ (Demo.twoServices 1).serviceName := by
  have hstep : (Demo.contended.1.step? (.op 1 .plain)).any (fun p ↦ Demo.isRefused 1 p.1) = true := by
    decide +kernel
  obtain ⟨e, P', hs, htest⟩ := Pool.exists_step_of_any hstep
  obtain ⟨t, m, ch, err, f, hch, rfl⟩ := Demo.exists_of_isRefused htest
  exact ⟨t, m, ch, err, f, P', hs, hch, lock_refused_by_other_service Demo.untouched_vacant
    (Pool.run_of_isSome Demo.contending_isSome) hs hch (Option.some_ne_none err)⟩

/-- Where the entries `1-0` of two services are for different data streams, both are locked. -/
theorem lock_granted_if_unshared_apart :
    ∃ t m ch reply f P', Pool.Step Demo.apart.1 (.op (M := machine Demo.service.json
        Demo.twoServices) t 1 (.lock m) ch reply f) P' ∧ ch.fault = .none ∧
      m.name = "users<MUTEX_KEY_SEP>1-0" ∧ reply = none := by
  have hstep : (Demo.apart.1.step? (.op 1 .plain)).any
      (fun p ↦ Demo.isLock 1 "users<MUTEX_KEY_SEP>1-0" p.1) = true := by
    decide +kernel
  have hlocked : ∀ x ∈ Demo.apart.2.locked, x.2.name ≠ "users<MUTEX_KEY_SEP>1-0" := by
    decide +kernel
  obtain ⟨e, P', hs, htest⟩ := Pool.exists_step_of_any hstep
  obtain ⟨t, m, ch, reply, f, hch, hkey, rfl⟩ := Demo.exists_of_isLock htest
  obtain ⟨-, message, name, todo, -, rfl, hgranted⟩ := lock_granted_if_unshared
    Demo.untouched_vacant (Pool.run_of_isSome Demo.apart_isSome) hs hch
  exact ⟨t, _, ch, reply, f, P', hs, hch, hkey,
    (hgranted fun d v hd ↦ absurd hkey (hlocked _ hd)).1⟩

/-- **Services contend for locks.**  Each of two services has an entry `1-0` for `orders`.
Though no command meets a fault, the reader of the second finds the key of its entry taken by
the first, and returns. -/
theorem services_contend_for_lock :
    (Demo.twoServices 0).serviceName ≠ (Demo.twoServices 1).serviceName ∧
      Pool.Run Docket.update (fun _ _ e ↦ Offered e ∧ NoFault e) (Demo.vacant, .new)
        Demo.ended.1 Demo.ended.2 ∧
      Demo.ended.2.locked = [(0, ⟨"orders<MUTEX_KEY_SEP>1-0", "a"⟩),
        (1, ⟨"orders<MUTEX_KEY_SEP>1-0", "b"⟩)] ∧
      Demo.ended.1.state.server.keys "orders<MUTEX_KEY_SEP>1-0" = some "a" ∧
      (Demo.ended.1.state.clients 1).ctxDone = false ∧
      (Demo.ended.1.state.clients 1).broker.input.map (·.type) = [.streamTerminated] ∧
      Demo.ended.1.isOver 1 = true :=
  ⟨by decide, Pool.run_of_isSome Demo.ended_isSome, by decide +kernel, by decide +kernel,
    by decide +kernel, by decide +kernel, by decide +kernel⟩

end RedisStreamClient.Impl
